import JiuwenCore.Lib.LineFeed
import JiuwenCore.Lib.Runs
import JiuwenCore.Tools.Arguments
import JiuwenCore.Tools.Disk

/-!
# The state of the files

`FileStateTool` keeps in a text file when the agent has read and written which file. Every call
loads the whole file first, one line after the other, and a number it cannot convert throws.
-/

namespace JiuwenCore.FileStateTool

open Config (StrMap)
open HistoryStore (isSpace signed signed_printInt)
open Json (isDigit printInt)
open LineFeed (getLines unlines)
open Tools (escapeWritten parseInt scanValue valueOf)

/-! ## Arguments -/

def parseStringField (json key : Str) : Str := scanValue escapeWritten (valueOf json key)

def parseIntField (json key : Str) (defaultVal : Int) : Int := parseInt json key defaultVal

/-! ## Numbers -/

/-- `std::stoll` and `std::stoi`, with the bits of the result but its sign; `none` where they
throw. -/
def stoNumber (bits : Nat) (text : Str) : Option Int :=
  let (sign, rest) := signed (text.dropWhile isSpace)
  let digits := rest.takeWhile isDigit
  let value := sign * ofDecimal digits
  if digits ≠ [] ∧ -2 ^ bits ≤ value ∧ value < 2 ^ bits then some value else none

theorem stoNumber_int : stoNumber 31 = HistoryStore.stoi := rfl

theorem stoNumber_printInt {bits : Nat} {n : Int} (hmin : -2 ^ bits ≤ n) (hmax : n < 2 ^ bits) :
    stoNumber bits (printInt n) = some n := by
  have htake : (toDecimal n.natAbs).takeWhile isDigit = toDecimal n.natAbs :=
    List.takeWhile_eq_self_iff.mpr (Json.toDecimal_digits _)
  have hvalue : (if n < 0 then -1 else 1) * (n.natAbs : Int) = n := by
    split <;> omega
  rw [stoNumber, signed_printInt]
  simp only [htake, ofDecimal_toDecimal, hvalue]
  exact if_pos ⟨Json.toDecimal_ne_nil _, hmin, hmax⟩

/-! ## Records -/

structure FileState where
  lastMtime : Int64 := 0
  lastReadTime : Int64 := 0
  lastWriteTime : Int64 := 0
  lastReadOffset : Int32 := 0
  lastReadLimit : Int32 := 2000
  deriving DecidableEq, Repr

/-- A line of a record: how it starts, and the number behind it. -/
structure Field where
  key : Str
  bits : Nat
  set : Int → FileState → FileState
  get : FileState → Int

def fields : List Field :=
  [{ key := lit "mtime: ", bits := 63, set := fun n s => { s with lastMtime := .ofInt n }
     get := fun s => s.lastMtime.toInt },
   { key := lit "read_time: ", bits := 63, set := fun n s => { s with lastReadTime := .ofInt n }
     get := fun s => s.lastReadTime.toInt },
   { key := lit "write_time: ", bits := 63, set := fun n s => { s with lastWriteTime := .ofInt n }
     get := fun s => s.lastWriteTime.toInt },
   { key := lit "offset: ", bits := 31, set := fun n s => { s with lastReadOffset := .ofInt n }
     get := fun s => s.lastReadOffset.toInt },
   { key := lit "limit: ", bits := 31, set := fun n s => { s with lastReadLimit := .ofInt n }
     get := fun s => s.lastReadLimit.toInt }]

/-- `line.substr(0, n) == key`. -/
def Field.heads (line : Str) (field : Field) : Bool := line.take field.key.length = field.key

def Field.store (field : Field) (line : Str) (s : FileState) : Option FileState :=
  (stoNumber field.bits (line.drop field.key.length)).map (field.set · s)

/-! ## Loading -/

/-- `LoadState` between two lines. -/
structure Loading where
  stateMap : StrMap FileState := .empty
  currentPath : Str := []
  current : FileState := {}

/-- The record under way goes into the map, if it has a path. -/
def Loading.flush (st : Loading) : StrMap FileState :=
  if st.currentPath ≠ [] then st.stateMap.insert st.currentPath st.current else st.stateMap

def loadLine (st : Loading) (line : Str) : Option Loading :=
  if line = [] ∨ line.head? = some 35 then some st
  else if line.take 5 = lit "file:" then
    some { stateMap := st.flush, currentPath := line.drop 5, current := {} }
  else
    match fields.find? (·.heads line) with
    | some field => (field.store line st.current).map fun s => { st with current := s }
    | none => some st

/-- `LoadState` of the file, `none` where it throws. A file that is not there holds nothing. -/
def loadState (file : Option Str) : Option (StrMap FileState) :=
  match file with
  | none => some .empty
  | some text => ((getLines 10 text).foldlM loadLine {}).map Loading.flush

/-! ## Saving -/

def Field.line (s : FileState) (field : Field) : Str := field.key ++ printInt (field.get s)

/-- The lines of a record; the last one is empty. -/
def entryLines (entry : Str × FileState) : List Str :=
  (lit "file:" ++ entry.1) :: fields.map (Field.line entry.2) ++ [[]]

def header : Str := lit "# File state tracking for agent memory"

/-- `SaveState`, when the file opens. -/
def saveState (stateMap : StrMap FileState) : Str :=
  unlines 10 (header :: stateMap.entries.flatMap entryLines)

/-! ## A call -/

/-- What a call finds: the modification times of the files that exist, the time, and whether the
state file can be opened for writing. Exceptions of the file system itself are left out. -/
structure Env where
  mtime : Str → Option Int64
  now : Int64
  opens : Bool

/-- What a call answers, and what it leaves in memory and in the state file. -/
structure Ended where
  reply : Str
  stateMap : StrMap FileState
  file : Option Str

def Ended.saved (env : Env) (reply : Str) (stateMap : StrMap FileState) (file : Option Str) :
    Ended where
  reply := reply
  stateMap := stateMap
  file := if env.opens then some (saveState stateMap) else file

def pathRequired (action : Str) : Str :=
  lit "Error: 'path' parameter is required for " ++ action

def notFound (filePath : Str) : Str := lit "Error: File not found: " ++ filePath

/-- The answer of `check` for a file with this modification time. -/
def checkReply (stateMap : StrMap FileState) (filePath : Str) (mtime : Int64)
    (offset limit : Int32) : Str :=
  match stateMap.get? filePath with
  | none =>
      lit "[WARNING] File " ++ filePath ++
        lit " has not been read. Please read it first before editing."
  | some state =>
      if mtime ≠ state.lastMtime then
        lit "[WARNING] File " ++ filePath ++
          lit " has been modified since last read. Please read it again."
      else if offset ≠ state.lastReadOffset ∨ limit ≠ state.lastReadLimit then
        lit "[WARNING] File " ++ filePath ++
          lit " was read with different offset/limit. Please read with offset=" ++
          printInt state.lastReadOffset.toInt ++ lit " and limit=" ++
          printInt state.lastReadLimit.toInt ++ lit " first."
      else lit "[OK] File " ++ filePath ++ lit " state is valid for editing"

/-- The body of `Invoke` behind `LoadState`. -/
def act (env : Env) (input : Str) (stateMap : StrMap FileState) (file : Option Str) : Ended :=
  let action := parseStringField input (lit "action")
  let filePath := parseStringField input (lit "path")
  let offset := Int32.ofInt (parseIntField input (lit "offset") 1)
  let limit := Int32.ofInt (parseIntField input (lit "limit") 2000)
  let answer (reply : Str) : Ended := { reply := reply, stateMap := stateMap, file := file }
  if action = lit "check" then
    if filePath = [] then answer (pathRequired action)
    else
      match env.mtime filePath with
      | none => answer (notFound filePath)
      | some mtime => answer (checkReply stateMap filePath mtime offset limit)
  else if action = lit "record_read" then
    if filePath = [] then answer (pathRequired action)
    else
      match env.mtime filePath with
      | none => answer (notFound filePath)
      | some mtime =>
          let stateMap := stateMap.insert filePath
            { lastMtime := mtime, lastReadTime := env.now, lastReadOffset := offset
              lastReadLimit := limit, lastWriteTime := 0 }
          .saved env (lit "Marked " ++ filePath ++ lit " as read (offset=" ++
            printInt offset.toInt ++ lit ", limit=" ++ printInt limit.toInt ++ lit ")")
            stateMap file
  else if action = lit "record_write" then
    if filePath = [] then answer (pathRequired action)
    else
      let stateMap := stateMap.update filePath {} fun s => { s with lastWriteTime := env.now }
      .saved env (lit "Marked " ++ filePath ++ lit " as written") stateMap file
  else if action = lit "clear" then .saved env (lit "Cleared all file state") .empty file
  else
    answer (lit "Error: Unknown action '" ++ action ++
      lit "'. Use: check, record_read, record_write, or clear")

/-- `FileStateTool::Invoke`; `none` for a call that throws. -/
def invoke (env : Env) (input : Str) (file : Option Str) : Option Ended :=
  (loadState file).map fun stateMap => act env input stateMap file

/-! ## Lines -/

/-- A number that cannot be converted. -/
def Damaged (line : Str) : Prop :=
  ∃ field ∈ fields, field.heads line ∧ stoNumber field.bits (line.drop field.key.length) = none

instance (line : Str) : Decidable (Damaged line) :=
  inferInstanceAs (Decidable (∃ field ∈ fields, _))

theorem split_of_heads {field : Field} {line : Str} (h : field.heads line = true) :
    line = field.key ++ line.drop field.key.length := by
  have htake := of_decide_eq_true h
  conv_lhs => rw [← List.take_append_drop field.key.length line, htake]

/-- The fields start with different letters, none of them that of a path or a comment. -/
theorem loadLine_key {field : Field} (h : field ∈ fields) (st : Loading) (rest : Str) :
    loadLine st (field.key ++ rest) =
      ((stoNumber field.bits rest).map (field.set · st.current)).map
        fun s => { st with current := s } := by
  simp only [fields, List.mem_cons, List.not_mem_nil, or_false] at h
  rcases h with rfl | rfl | rfl | rfl | rfl <;> rfl

theorem loadLine_field {field : Field} (h : field ∈ fields) (st : Loading) {line : Str}
    (hheads : field.heads line = true) :
    loadLine st line = (field.store line st.current).map fun s => { st with current := s } := by
  conv_lhs => rw [split_of_heads hheads, loadLine_key h]
  rfl

theorem loadLine_other {line : Str} (h : ∀ field ∈ fields, ¬ field.heads line = true)
    (st : Loading) : (loadLine st line).isSome = true := by
  have hnone : fields.find? (·.heads line) = none := List.find?_eq_none.mpr h
  unfold loadLine
  split
  · rfl
  · split
    · rfl
    · rw [hnone]
      rfl

theorem loadLine_isSome_iff (st : Loading) (line : Str) :
    (loadLine st line).isSome = true ↔ ¬ Damaged line := by
  by_cases hkey : ∃ field ∈ fields, field.heads line = true
  · obtain ⟨field, hfield, hheads⟩ := hkey
    rw [loadLine_field hfield st hheads]
    constructor
    · rintro hsome ⟨other, hother, hotherHeads, hnumber⟩
      rw [← loadLine_field hfield st hheads, loadLine_field hother st hotherHeads,
        Field.store, hnumber] at hsome
      cases hsome
    · intro hsound
      cases hnumber : stoNumber field.bits (line.drop field.key.length) with
      | none => exact absurd ⟨field, hfield, hheads, hnumber⟩ hsound
      | some n => simp [Field.store, hnumber]
  · have hother : ∀ field ∈ fields, ¬ field.heads line = true :=
      fun field hfield hheads => hkey ⟨field, hfield, hheads⟩
    refine iff_of_true (loadLine_other hother st) ?_
    rintro ⟨field, hfield, hheads, -⟩
    exact hother field hfield hheads

theorem foldlM_isSome_iff {α β : Type} {f : β → α → Option β} {good : α → Prop}
    (h : ∀ s x, (f s x).isSome = true ↔ good x) (l : List α) (s : β) :
    (l.foldlM f s).isSome = true ↔ ∀ x ∈ l, good x := by
  induction l generalizing s with
  | nil => simp
  | cons x rest ih =>
      rw [List.foldlM_cons, List.forall_mem_cons, ← h s x]
      cases f s x with
      | none => simp
      | some s' => simpa using ih s'

theorem foldlM_invariant {α β : Type} (inv : β → Prop) {f : β → α → Option β} {l : List α}
    (h : ∀ s, ∀ x ∈ l, ∀ s', inv s → f s x = some s' → inv s') {s s' : β} (hs : inv s)
    (hfold : l.foldlM f s = some s') : inv s' := by
  induction l generalizing s with
  | nil =>
      cases hfold
      exact hs
  | cons x rest ih =>
      rw [List.foldlM_cons] at hfold
      obtain ⟨next, hnext, hrest⟩ := Option.bind_eq_some_iff.mp hfold
      exact ih (fun s y hy => h s y (List.mem_cons_of_mem x hy))
        (h s x List.mem_cons_self next hs hnext) hrest

/-- The file loads exactly when every number in it can be converted. -/
theorem loadState_isSome_iff (file : Option Str) :
    (loadState file).isSome = true ↔ ∀ text ∈ file, ∀ line ∈ getLines 10 text, ¬ Damaged line := by
  cases file with
  | none => simp [loadState]
  | some text =>
      rw [loadState, Option.isSome_map, foldlM_isSome_iff loadLine_isSome_iff]
      simp

/-! ## What is saved -/

/-- Paths that fit on a line. -/
def Clean (stateMap : StrMap FileState) : Prop := ∀ path ∈ stateMap.keys, path ≠ [] ∧ 10 ∉ path

theorem Clean.empty : Clean .empty := by
  intro path hpath
  cases hpath

theorem Clean.update {stateMap : StrMap FileState} (h : Clean stateMap) {path : Str}
    (hne : path ≠ []) (hline : 10 ∉ path) (init : FileState) (f : FileState → FileState) :
    Clean (stateMap.update path init f) := by
  intro k hk
  rcases (stateMap.mem_keys_update path init f k).mp hk with rfl | hk
  · exact ⟨hne, hline⟩
  · exact h k hk

/-- The paths of a file that is loaded come from its lines. -/
theorem clean_of_loadState {file : Option Str} {stateMap : StrMap FileState}
    (h : loadState file = some stateMap) : Clean stateMap := by
  have hflush : ∀ st : Loading, Clean st.stateMap ∧ 10 ∉ st.currentPath → Clean st.flush := by
    intro st hst
    unfold Loading.flush
    split
    · rename_i hne
      exact hst.1.update hne hst.2 _ _
    · exact hst.1
  cases file with
  | none =>
      cases h
      exact .empty
  | some text =>
      obtain ⟨st, hfold, rfl⟩ := Option.map_eq_some_iff.mp h
      refine hflush st (foldlM_invariant (fun st => Clean st.stateMap ∧ 10 ∉ st.currentPath) ?_
        ⟨.empty, List.not_mem_nil⟩ hfold)
      intro st line hline st' hst hload
      unfold loadLine at hload
      split at hload
      · cases hload
        exact hst
      · split at hload
        · cases hload
          exact ⟨hflush st hst, fun hmem =>
            LineFeed.not_mem_of_mem_getLines 10 hline (List.mem_of_mem_drop hmem)⟩
        · split at hload
          · obtain ⟨s, -, rfl⟩ := Option.map_eq_some_iff.mp hload
            exact hst
          · cases hload
            exact hst

/-! ## Loading what was saved -/

theorem get_range {field : Field} (h : field ∈ fields) (s : FileState) :
    -2 ^ field.bits ≤ field.get s ∧ field.get s < 2 ^ field.bits := by
  simp only [fields, List.mem_cons, List.not_mem_nil, or_false] at h
  rcases h with rfl | rfl | rfl | rfl | rfl
  · exact ⟨Int64.le_toInt _, Int64.toInt_lt _⟩
  · exact ⟨Int64.le_toInt _, Int64.toInt_lt _⟩
  · exact ⟨Int64.le_toInt _, Int64.toInt_lt _⟩
  · exact ⟨Int32.le_toInt _, Int32.toInt_lt _⟩
  · exact ⟨Int32.le_toInt _, Int32.toInt_lt _⟩

/-- A number that was saved is loaded. -/
theorem loadLine_line {field : Field} (h : field ∈ fields) (s : FileState) (st : Loading) :
    loadLine st (field.line s) =
      some { st with current := field.set (field.get s) st.current } := by
  obtain ⟨hmin, hmax⟩ := get_range h s
  rw [Field.line, loadLine_key h, stoNumber_printInt hmin hmax]
  rfl

theorem foldlM_fields {chosen : List Field} (h : ∀ field ∈ chosen, field ∈ fields)
    (s : FileState) (st : Loading) :
    (chosen.map (Field.line s)).foldlM loadLine st = some
      { st with
        current := chosen.foldl (fun out field => field.set (field.get s) out) st.current } := by
  induction chosen generalizing st with
  | nil => rfl
  | cons field rest ih =>
      obtain ⟨hfirst, hrest⟩ := List.forall_mem_cons.mp h
      rw [List.map_cons, List.foldlM_cons, loadLine_line hfirst]
      exact ih hrest _

/-- The fields make up the record. -/
theorem foldl_fields (s out : FileState) :
    fields.foldl (fun out field => field.set (field.get s) out) out = s := by
  simp [fields]

theorem foldlM_entryLines (entry : Str × FileState) (st : Loading) :
    (entryLines entry).foldlM loadLine st =
      some { stateMap := st.flush, currentPath := entry.1, current := entry.2 } := by
  have hpath : loadLine st (lit "file:" ++ entry.1) =
      some { stateMap := st.flush, currentPath := entry.1, current := {} } := rfl
  rw [entryLines, List.foldlM_append, List.foldlM_cons, hpath, Option.bind_eq_bind,
    Option.bind_some, foldlM_fields fun _ h => h, foldl_fields]
  rfl

theorem foldlM_entries (entries : List (Str × FileState)) (hpath : ∀ entry ∈ entries, entry.1 ≠ [])
    (st : Loading) :
    ((entries.flatMap entryLines).foldlM loadLine st).map Loading.flush =
      some (entries.foldl (fun out entry => out.insert entry.1 entry.2) st.flush) := by
  induction entries generalizing st with
  | nil => rfl
  | cons entry rest ih =>
      obtain ⟨hfirst, hrest⟩ := List.forall_mem_cons.mp hpath
      rw [List.flatMap_cons, List.foldlM_append, foldlM_entryLines, Option.bind_eq_bind,
        Option.bind_some, ih hrest, List.foldl_cons, Loading.flush, if_pos hfirst]

theorem printInt_line (n : Int) : 10 ∉ printInt n := by
  have htake := HistoryStore.printInt_line n
  intro hmem
  rw [← htake] at hmem
  exact absurd (List.mem_takeWhile_imp hmem) (by decide)

theorem entryLines_line {entry : Str × FileState} (h : 10 ∉ entry.1) :
    ∀ line ∈ entryLines entry, 10 ∉ line := by
  have hkeys : ∀ field ∈ fields, 10 ∉ field.key := by decide
  have hfile : 10 ∉ lit "file:" := by decide
  intro line hline
  rcases List.mem_append.mp hline with hline | hline
  · rcases List.mem_cons.mp hline with rfl | hline
    · simp [hfile, h]
    · obtain ⟨field, hfield, rfl⟩ := List.mem_map.mp hline
      simp [Field.line, hkeys field hfield, printInt_line]
  · rw [List.mem_singleton.mp hline]
    exact List.not_mem_nil

/-- What is saved is loaded. -/
theorem loadState_saveState {stateMap : StrMap FileState} (h : Clean stateMap) :
    loadState (some (saveState stateMap)) = some stateMap := by
  have hmem : ∀ entry ∈ stateMap.entries, entry.1 ≠ [] ∧ 10 ∉ entry.1 :=
    fun entry hentry => h entry.1 (List.mem_map_of_mem hentry)
  have hlines : ∀ line ∈ header :: stateMap.entries.flatMap entryLines, 10 ∉ line := by
    rw [List.forall_mem_cons]
    refine ⟨by decide, fun line hline => ?_⟩
    obtain ⟨entry, hentry, hline⟩ := List.mem_flatMap.mp hline
    exact entryLines_line (hmem entry hentry).2 line hline
  have hheader : loadLine {} header = some {} := rfl
  rw [loadState, saveState, LineFeed.getLines_unlines 10 hlines, List.foldlM_cons, hheader,
    Option.bind_eq_bind, Option.bind_some,
    foldlM_entries _ fun entry hentry => (hmem entry hentry).1]
  refine congrArg some (OrderedMap.ext_get? fun k => ?_)
  exact (stateMap.get?_overlay .empty k).trans (Option.or_none)

/-! ## Calls one after another -/

structure Call where
  env : Env
  input : Str

def Call.action (call : Call) : Str := parseStringField call.input (lit "action")

def Call.path (call : Call) : Str := parseStringField call.input (lit "path")

/-- A call of a fresh instance, and the file it leaves. -/
def step (file : Option Str) (call : Call) : Option (Option Str) :=
  (invoke call.env call.input file).map (·.file)

def IsRecord (_ : Option Str) (call : Call) : Prop :=
  (call.action = lit "record_read" ∨ call.action = lit "record_write") ∧ 10 ∉ call.path ∧
    call.env.opens = true

theorem invoke_eq_some {env : Env} {input : Str} {file : Option Str} {ended : Ended}
    (h : invoke env input file = some ended) :
    ∃ stateMap, loadState file = some stateMap ∧ ended = act env input stateMap file := by
  obtain ⟨stateMap, hload, rfl⟩ := Option.map_eq_some_iff.mp h
  exact ⟨stateMap, hload, rfl⟩

theorem loadState_saved {env : Env} (hopens : env.opens = true) (reply : Str)
    {stateMap : StrMap FileState} (h : Clean stateMap) (file : Option Str) :
    loadState (Ended.saved env reply stateMap file).file = some stateMap := by
  rw [Ended.saved, if_pos hopens, loadState_saveState h]

/-- The next instance loads what this one has in memory. -/
theorem loadState_act {file : Option Str} {stateMap : StrMap FileState}
    (hload : loadState file = some stateMap) {call : Call} (h : IsRecord file call) :
    loadState (act call.env call.input stateMap file).file =
      some (act call.env call.input stateMap file).stateMap := by
  obtain ⟨haction, hline, hopens⟩ := h
  have hclean := clean_of_loadState hload
  have hread : lit "record_read" ≠ lit "check" := by decide
  have hwrite : lit "record_write" ≠ lit "check" ∧ lit "record_write" ≠ lit "record_read" := by
    decide
  unfold Call.action at haction
  unfold Call.path at hline
  unfold act
  rcases haction with haction | haction
  · simp only [haction, if_neg hread, if_pos]
    split
    · exact hload
    · rename_i hne
      split
      · exact hload
      · exact loadState_saved hopens _ (hclean.update hne hline _ _) file
  · simp only [haction, if_neg hwrite.1, if_neg hwrite.2, if_pos]
    split
    · exact hload
    · rename_i hne
      exact loadState_saved hopens _ (hclean.update hne hline _ _) file

/-- A file that loads still loads after any of the calls. -/
theorem loads_run {file file' : Option Str} (hrun : Run step IsRecord file file')
    (h : (loadState file).isSome = true) : (loadState file').isSome = true := by
  refine hrun.invariant (motive := fun file => (loadState file).isSome = true) h ?_
  intro file call file' _ hok hstep
  obtain ⟨ended, hinvoke, rfl⟩ := Option.map_eq_some_iff.mp hstep
  obtain ⟨stateMap, hload, rfl⟩ := invoke_eq_some hinvoke
  rw [loadState_act hload hok, Option.isSome_some]

def validActions : List Str :=
  [lit "check", lit "record_read", lit "record_write", lit "clear"]

/-- What is asked of the tool whatever its state file holds. -/
structure Robust (file : Option Str) : Prop where
  returns : ∀ call : Call, call.action ∈ validActions →
    (invoke call.env call.input file).isSome = true
  clears : ∀ call : Call, call.action = lit "clear" → call.env.opens = true →
    ∃ ended, invoke call.env call.input file = some ended ∧ loadState ended.file = some .empty
  chained : ∀ file', Run step IsRecord file file' → ∀ call, IsRecord file' call →
    ∃ ended, invoke call.env call.input file' = some ended ∧
      loadState ended.file = some ended.stateMap

theorem loadState_clear {call : Call} (haction : call.action = lit "clear")
    (hopens : call.env.opens = true) (stateMap : StrMap FileState) (file : Option Str) :
    loadState (act call.env call.input stateMap file).file = some .empty := by
  have hother : lit "clear" ≠ lit "check" ∧ lit "clear" ≠ lit "record_read" ∧
      lit "clear" ≠ lit "record_write" := by decide
  unfold Call.action at haction
  unfold act
  simp only [haction, if_neg hother.1, if_neg hother.2.1, if_neg hother.2.2, if_pos]
  exact loadState_saved hopens _ .empty file

theorem robust_of_loads {file : Option Str} (h : (loadState file).isSome = true) :
    Robust file where
  returns := fun call _ => by rw [invoke, Option.isSome_map, h]
  clears := by
    intro call haction hopens
    obtain ⟨stateMap, hload⟩ := Option.isSome_iff_exists.mp h
    exact ⟨_, by rw [invoke, hload, Option.map_some], loadState_clear haction hopens stateMap file⟩
  chained := by
    intro file' hrun call hrecord
    obtain ⟨stateMap, hload⟩ := Option.isSome_iff_exists.mp (loads_run hrun h)
    exact ⟨_, by rw [invoke, hload, Option.map_some], loadState_act hload hrecord⟩

/-- A call of `clear`. -/
def clearCall : Call where
  env := { mtime := fun _ => none, now := 0, opens := true }
  input := lit "\x7b\"action\":\"clear\"\x7d"

theorem clearCall_action : clearCall.action = lit "clear" := by decide

/-- The tool holds what is asked of it exactly when no line of the file is damaged. -/
theorem robust_iff (file : Option Str) :
    Robust file ↔ ∀ text ∈ file, ∀ line ∈ getLines 10 text, ¬ Damaged line := by
  rw [← loadState_isSome_iff]
  refine ⟨fun h => ?_, robust_of_loads⟩
  have hreturns := h.returns clearCall (by rw [clearCall_action]; decide)
  rwa [invoke, Option.isSome_map] at hreturns

/-- One damaged line, and not even `clear` returns. -/
theorem damaged_line_throws : ¬ ∀ file : Option Str, Robust file := by
  intro h
  have hreturns := (h (some (lit "mtime: ?\n"))).returns clearCall
    (by rw [clearCall_action]; decide)
  rw [invoke, Option.isSome_map, loadState_isSome_iff] at hreturns
  exact hreturns _ rfl (lit "mtime: ?") (by decide) (by decide)

/-! ## A file the tool damages itself -/

/-- A record of a path that goes on behind a line feed. -/
def damagingCall : Call where
  env := clearCall.env
  input := lit "\x7b\"action\":\"record_write\",\"path\":\"a\nmtime: ?\"\x7d"

/-- After a damaged line no call returns, so that none repairs the file. -/
theorem stuck_run {file file' : Option Str} (h : loadState file = none)
    (hrun : Run step AnyStep file file') : file' = file := by
  refine hrun.invariant (motive := (· = file)) rfl ?_
  rintro _ call file'' rfl - hstep
  rw [step, invoke, h] at hstep
  cases hstep

/-- One record is enough to damage it, where the path has a line feed. -/
theorem recorded_path_damages : ∃ file, step none damagingCall = some file ∧
    ∀ file', Run step AnyStep file file' → loadState file' = none := by
  refine ⟨_, rfl, fun file' hrun => ?_⟩
  have hnone : loadState (act damagingCall.env damagingCall.input .empty none).file = none := by
    decide +kernel
  rw [stuck_run hnone hrun]
  exact hnone

end JiuwenCore.FileStateTool
