import JiuwenCore.JsonReader
import JiuwenCore.Lib.LineFeed
import JiuwenCore.Lib.Locked

/-!
# Compacting the history

`CompactHistory` reads the whole history, and writes the last entries of it back through a
second file. What it reads are entries, which hold less than a line does. The lines are JSON
texts here, as the reader of the file takes them.
-/

namespace JiuwenCore.Compaction

open LineFeed (getLines unlines)

/-- `HistoryEntry`. -/
structure HistoryEntry where
  cursor : Int32 := 0
  timestamp : Str := []
  role : Str := []
  content : Str := []
  toolCallId : Str := []
  toolName : Str := []
  payloadRef : Str := []
  deriving DecidableEq, Repr

/-! ## Reading -/

/-- The entry of a line; `none` where a member throws. -/
def readEntry (lib : JsonLib) (j : Json) : Option HistoryEntry := do
  let text (key : String) := j.value Json.getString (lit key) []
  let cursor ← j.value (Json.getInt lib) (lit "cursor") 0
  let timestamp ← text "timestamp"
  let role ← text "role"
  let content ← text "content"
  let toolCallId ← text "tool_call_id"
  let toolName ← text "tool_name"
  let payloadRef ← text "payload_ref"
  return { cursor := cursor, timestamp := timestamp, role := role, content := content,
           toolCallId := toolCallId, toolName := toolName, payloadRef := payloadRef }

/-- A line that is read, and its entry. -/
def readRecord (lib : JsonLib) (line : Str) : Option (Json × HistoryEntry) := do
  let j ← lib.parse line
  let entry ← readEntry lib j
  return (j, entry)

/-- The file, `none` where it cannot be opened. -/
abbrev HistoryFile := Option Str

/-- The lines that are not skipped as malformed. -/
def records (lib : JsonLib) (file : HistoryFile) : List (Json × HistoryEntry) :=
  match file with
  | none => []
  | some text => ((getLines 10 text).filter (· ≠ [])).filterMap (readRecord lib)

/-- What `ReadAllEntries` gives. -/
def entries (lib : JsonLib) (file : HistoryFile) : List HistoryEntry :=
  (records lib file).map (·.2)

/-- The lines themselves, with all their members. -/
def objects (lib : JsonLib) (file : HistoryFile) : List Json := (records lib file).map (·.1)

def readAllEntries (lib : JsonLib) : Locked HistoryFile (List HistoryEntry) :=
  .guarded (.reads (entries lib))

/-! ## Writing -/

/-- A member that is written when there is something in it. -/
def optional (key : Str) (text : Str) : List (Str × Json) :=
  if text ≠ [] then [(key, .str text)] else []

/-- The members of an entry, their keys in order. -/
def members (e : HistoryEntry) : List (Str × Json) :=
  [(lit "content", .str e.content), (lit "cursor", .int e.cursor.toInt)] ++
    optional (lit "payload_ref") e.payloadRef ++
    [(lit "role", .str e.role), (lit "timestamp", .str e.timestamp)] ++
    optional (lit "tool_call_id") e.toolCallId ++ optional (lit "tool_name") e.toolName

def toJson (e : HistoryEntry) : Json := .obj (members e)

/-- `WriteEntries`; the second file may not open. It takes the place of the history when all
entries have been dumped. -/
def writeEntries (lib : JsonLib) (opens : Bool) (kept : List HistoryEntry) :
    Locked HistoryFile Unit := fun _ file =>
  if opens then
    match kept.mapM fun e => lib.dump (toJson e) with
    | some lines => .returned () (some (unlines 10 lines))
    | none => .threw file
  else .returned () file

/-- `CompactHistory` with a reader. An iterator outside the vector is undefined. -/
def compactWith (readAll : Locked HistoryFile (List HistoryEntry)) (lib : JsonLib) (opens : Bool)
    (maxEntries : Int32) : Locked HistoryFile Unit :=
  .guarded do
    let entries ← readAll
    if Int32.ofNat entries.length ≤ maxEntries then return
    let start := (entries.length : Int) - maxEntries.toInt
    if 0 ≤ start ∧ start ≤ entries.length then
      writeEntries lib opens (entries.drop start.toNat)
    else .undefined

def compactHistory (lib : JsonLib) (opens : Bool) (maxEntries : Int32) :
    Locked HistoryFile Unit := compactWith (readAllEntries lib) lib opens maxEntries

/-! ## An entry and its line -/

section Members

variable {α : Type} (get : Json → Option α) (default : α) (rest : List (Str × Json))

theorem value_here (key : Str) (j : Json) :
    Json.value get key default (.obj ((key, j) :: rest)) = get j := by
  simp [Json.value, Json.member]

theorem value_skip {key k : Str} (h : k ≠ key) (j : Json) :
    Json.value get key default (.obj ((k, j) :: rest)) =
      Json.value get key default (.obj rest) := by
  simp [Json.value, Json.member, h]

theorem value_nil (key : Str) : Json.value get key default (.obj []) = some default := rfl

theorem value_optional_skip {key k : Str} (h : k ≠ key) (text : Str) :
    Json.value get key default (.obj (optional k text ++ rest)) =
      Json.value get key default (.obj rest) := by
  unfold optional
  split
  · exact value_skip get default rest h _
  · rfl

end Members

/-- A member that is not written reads as the empty text it has. -/
theorem value_optional {key : Str} {rest : List (Str × Json)}
    (h : Json.value Json.getString key [] (.obj rest) = some []) (text : Str) :
    Json.value Json.getString key [] (.obj (optional key text ++ rest)) = some text := by
  unfold optional
  split
  · exact value_here _ _ _ _ _
  · rename_i hempty
    rw [not_not] at hempty
    rw [hempty, List.nil_append, h]

theorem members_eq (e : HistoryEntry) : members e =
    (lit "content", .str e.content) :: (lit "cursor", .int e.cursor.toInt) ::
      (optional (lit "payload_ref") e.payloadRef ++ (lit "role", .str e.role) ::
        (lit "timestamp", .str e.timestamp) :: (optional (lit "tool_call_id") e.toolCallId ++
          (optional (lit "tool_name") e.toolName ++ []))) := by
  simp [members]

theorem readEntry_toJson (lib : JsonLib) (e : HistoryEntry) :
    readEntry lib (toJson e) = some e := by
  have hpayloadRef : (toJson e).value Json.getString (lit "payload_ref") [] =
      some e.payloadRef := by
    rw [toJson, members_eq]
    simp (disch := decide) only [value_skip]
    refine value_optional ?_ _
    simp (disch := decide) only [value_skip, value_optional_skip, value_nil]
  have htoolCallId : (toJson e).value Json.getString (lit "tool_call_id") [] =
      some e.toolCallId := by
    rw [toJson, members_eq]
    simp (disch := decide) only [value_skip, value_optional_skip]
    refine value_optional ?_ _
    simp (disch := decide) only [value_optional_skip, value_nil]
  have htoolName : (toJson e).value Json.getString (lit "tool_name") [] = some e.toolName := by
    rw [toJson, members_eq]
    simp (disch := decide) only [value_skip, value_optional_skip]
    exact value_optional rfl _
  have hcursor : (toJson e).value (Json.getInt lib) (lit "cursor") 0 = some e.cursor := by
    rw [toJson, members_eq]
    simp (disch := decide) only [value_skip, value_here, Json.getInt, Int32.ofInt_toInt]
  have htexts : (toJson e).value Json.getString (lit "content") [] = some e.content ∧
      (toJson e).value Json.getString (lit "role") [] = some e.role ∧
      (toJson e).value Json.getString (lit "timestamp") [] = some e.timestamp := by
    rw [toJson, members_eq]
    simp (disch := decide) only [value_skip, value_optional_skip, value_here, Json.getString,
      and_self]
  unfold readEntry
  simp only [hcursor, htexts, hpayloadRef, htoolCallId, htoolName, Option.bind_eq_bind,
    Option.bind_some]
  rfl

def keys : List Str :=
  [lit "content", lit "cursor", lit "payload_ref", lit "role", lit "timestamp",
    lit "tool_call_id", lit "tool_name"]

theorem optional_keys (key text : Str) : ((optional key text).map (·.1)).Sublist [key] := by
  unfold optional
  split
  · exact List.Sublist.refl _
  · exact List.nil_sublist _

theorem members_keys (e : HistoryEntry) : ((members e).map (·.1)).Sublist keys := by
  simp only [members, List.map_append, List.append_assoc]
  exact (List.Sublist.refl [_, _]).append ((optional_keys _ _).append
    ((List.Sublist.refl [_, _]).append ((optional_keys _ _).append (optional_keys _ _))))

/-- The texts of an entry. -/
def HistoryEntry.texts (e : HistoryEntry) : List Str :=
  [e.content, e.payloadRef, e.role, e.timestamp, e.toolCallId, e.toolName]

theorem mem_members {e : HistoryEntry} {entry : Str × Json} (h : entry ∈ members e) :
    entry.1 ∈ keys ∧ (entry.2 = .int e.cursor.toInt ∨ ∃ text ∈ e.texts, entry.2 = .str text) := by
  refine ⟨(members_keys e).subset (List.mem_map_of_mem h), ?_⟩
  simp only [members, optional, List.mem_append, List.mem_cons, List.not_mem_nil, or_false,
    List.mem_ite_nil_right] at h
  rcases h with ((((rfl | rfl) | ⟨-, rfl⟩) | rfl | rfl) | ⟨-, rfl⟩) | ⟨-, rfl⟩ <;>
    simp [HistoryEntry.texts]

theorem toJson_regular (e : HistoryEntry) : (toJson e).regular = true := by
  have hkeys : keys.Pairwise (· < ·) := by decide
  refine Json.regular_obj.mpr ⟨hkeys.sublist (members_keys e), ?_⟩
  intro entry hentry
  rcases (mem_members hentry).2 with hint | ⟨text, -, htext⟩
  · have hmin := Int32.le_toInt e.cursor
    have hmax := Int32.toInt_lt e.cursor
    rw [hint, Json.regular, decide_eq_true_iff]
    omega
  · rw [htext, Json.regular]

theorem toJson_utf8 {e : HistoryEntry} (h : ∀ text ∈ e.texts, Utf8.Text text) :
    (toJson e).Utf8Only := by
  have hkeys : ∀ key ∈ keys, Utf8.Text key := by decide
  refine Json.utf8Only_obj.mpr fun entry hentry => ?_
  obtain ⟨hkey, hvalue⟩ := mem_members hentry
  refine ⟨hkeys _ hkey, ?_⟩
  rcases hvalue with hint | ⟨text, hmem, htext⟩
  · rw [hint]
    exact Json.utf8Only_int
  · rw [htext]
    exact Json.utf8Only_str.mpr (h text hmem)

theorem value_utf8 {j : Json} (hj : j.Utf8Only) {key text : Str}
    (h : j.value Json.getString key [] = some text) : Utf8.Text text := by
  unfold Json.value at h
  split at h
  · rename_i list
    split at h
    · rename_i item hitem
      obtain ⟨entry, hfind, rfl⟩ := Option.map_eq_some_iff.mp hitem
      have hentry := Json.utf8Only_obj.mp hj entry (List.mem_of_find?_eq_some hfind)
      cases hvalue : entry.2 with
      | str s =>
          rw [hvalue] at h hentry
          cases h
          exact Json.utf8Only_str.mp hentry.2
      | _ =>
          rw [hvalue] at h
          cases h
    · cases h
      exact .nil
  · cases h

/-- What is read from a line can be written. -/
theorem texts_utf8 {lib : JsonLib} (hlib : lib.StrictUtf8) {line : Str} {j : Json}
    {e : HistoryEntry} (h : readRecord lib line = some (j, e)) :
    ∀ text ∈ e.texts, Utf8.Text text := by
  simp only [readRecord, Option.bind_eq_bind, Option.bind_eq_some_iff] at h
  obtain ⟨j', hparse, e', hentry, heq⟩ := h
  cases heq
  have hj := hlib.parse_utf8 line j hparse
  simp only [readEntry, Option.bind_eq_bind, Option.bind_eq_some_iff] at hentry
  obtain ⟨cursor, -, timestamp, htimestamp, role, hrole, content, hcontent, toolCallId, hcallId,
    toolName, htoolName, payloadRef, hpayload, heq⟩ := hentry
  cases heq
  simp only [HistoryEntry.texts, List.forall_mem_cons]
  exact ⟨value_utf8 hj hcontent, value_utf8 hj hpayload, value_utf8 hj hrole,
    value_utf8 hj htimestamp, value_utf8 hj hcallId, value_utf8 hj htoolName, nofun⟩

theorem records_texts {lib : JsonLib} (hlib : lib.StrictUtf8) {file : HistoryFile}
    {e : HistoryEntry} (h : e ∈ entries lib file) : ∀ text ∈ e.texts, Utf8.Text text := by
  obtain ⟨record, hrecord, rfl⟩ := List.mem_map.mp h
  unfold records at hrecord
  split at hrecord
  · cases hrecord
  · obtain ⟨line, -, hline⟩ := List.mem_filterMap.mp hrecord
    exact texts_utf8 hlib hline

/-! ## What it should do -/

/-- The last `max(n, 0)` of a list, all of it when it is shorter. -/
def lastOf {α : Type} (n : Int32) (l : List α) : List α := l.drop (l.length - n.toInt.toNat)

/-- The method returns, and leaves the last lines as they were. -/
def Compacts (lib : JsonLib) (method : Locked HistoryFile Unit) (n : Int32) (file : HistoryFile) :
    Prop :=
  ∃ file', method false file = .returned () file' ∧
    entries lib file' = lastOf n (entries lib file) ∧
      objects lib file' = lastOf n (objects lib file)

theorem compactHistory_relocked (lib : JsonLib) (opens : Bool) (n : Int32) (held : Bool)
    (file : HistoryFile) : compactHistory lib opens n held file = .relocked :=
  Locked.guarded_guarded_bind _ _ held file

/-- `CompactHistory` takes the mutex its own reader asks for. -/
theorem never_compacts (lib : JsonLib) (opens : Bool) (n : Int32) (file : HistoryFile) :
    ¬ Compacts lib (compactHistory lib opens n) n file := by
  rintro ⟨file', hreturns, -⟩
  rw [compactHistory_relocked] at hreturns
  cases hreturns

/-- One event of a session. -/
def oneLine : HistoryFile := some (lit
  "\x7b\"content\":\"hi\",\"cursor\":1,\"role\":\"user\",\"session_id\":\"s\",\"timestamp\":\"t\"\x7d\n")

theorem empty_compaction_relocks :
    ¬ ∀ (n : Int32) (file : HistoryFile),
      Compacts readerLib (compactHistory readerLib true n) n file := by
  intro h
  obtain ⟨file', hreturns, -⟩ := h 0 oneLine
  rw [compactHistory_relocked] at hreturns
  cases hreturns

/-! ## A reader that leaves the mutex alone -/

/-- `dump` without an indentation writes one line. -/
def OneLine (lib : JsonLib) : Prop := ∀ j text, lib.dump j = some text → 10 ∉ text

def lineOf (lib : JsonLib) (e : HistoryEntry) : Str := (lib.dump (toJson e)).getD []

theorem dump_lineOf {lib : JsonLib} (hlib : lib.StrictUtf8) {e : HistoryEntry}
    (h : ∀ text ∈ e.texts, Utf8.Text text) : lib.dump (toJson e) = some (lineOf lib e) := by
  obtain ⟨line, hline⟩ :=
    Option.isSome_iff_exists.mp ((hlib.dump_isSome _).mpr (toJson_utf8 h))
  rw [lineOf, hline, Option.getD_some]

theorem mapM_dump {lib : JsonLib} (hlib : lib.StrictUtf8) {kept : List HistoryEntry}
    (h : ∀ e ∈ kept, ∀ text ∈ e.texts, Utf8.Text text) :
    (kept.mapM fun e => lib.dump (toJson e)) = some (kept.map (lineOf lib)) := by
  induction kept with
  | nil => rfl
  | cons e rest ih =>
      obtain ⟨hfirst, hrest⟩ := List.forall_mem_cons.mp h
      simp [List.mapM_cons, dump_lineOf hlib hfirst, ih hrest]

/-- A line that is written is read back from the object that was dumped for it. -/
theorem readRecord_lineOf {lib : JsonLib} (hlib : lib.Faithful) {e : HistoryEntry}
    (h : ∀ text ∈ e.texts, Utf8.Text text) :
    lineOf lib e ≠ [] ∧ readRecord lib (lineOf lib e) = some (toJson e, e) := by
  have hparse := hlib.parse_dump _ _ (toJson_regular e) (dump_lineOf hlib.toStrictUtf8 h)
  constructor
  · intro hnil
    rw [hnil, hlib.parse_nil] at hparse
    cases hparse
  · simp [readRecord, hparse, readEntry_toJson]

theorem records_written {lib : JsonLib} (hlib : lib.Faithful) (hone : OneLine lib)
    {kept : List HistoryEntry} (h : ∀ e ∈ kept, ∀ text ∈ e.texts, Utf8.Text text) :
    records lib (some (unlines 10 (kept.map (lineOf lib)))) =
      kept.map fun e => (toJson e, e) := by
  have hline : ∀ line ∈ kept.map (lineOf lib), 10 ∉ line ∧ line ≠ [] := by
    intro line hmem
    obtain ⟨e, he, rfl⟩ := List.mem_map.mp hmem
    exact ⟨hone _ _ (dump_lineOf hlib.toStrictUtf8 (h e he)), (readRecord_lineOf hlib (h e he)).1⟩
  have hsome : (kept.map (lineOf lib)).filter (· ≠ []) = kept.map (lineOf lib) :=
    List.filter_eq_self.mpr fun line hmem => decide_eq_true (hline line hmem).2
  rw [records, LineFeed.getLines_unlines 10 fun line hmem => (hline line hmem).1, hsome]
  clear hline hsome
  induction kept with
  | nil => rfl
  | cons e rest ih =>
      obtain ⟨hfirst, hrest⟩ := List.forall_mem_cons.mp h
      rw [List.map_cons, List.filterMap_cons_some (readRecord_lineOf hlib hfirst).2, ih hrest,
        List.map_cons]

/-- `CompactHistory` as it would run if its reader did not ask for the mutex. -/
def unlockedCompact (lib : JsonLib) (opens : Bool) (n : Int32) : Locked HistoryFile Unit :=
  compactWith (.reads (entries lib)) lib opens n

theorem unlockedCompact_run {lib : JsonLib} {n : Int32} {file : HistoryFile}
    (hfits : (entries lib file).length < 2 ^ 31) (opens : Bool) :
    unlockedCompact lib opens n false file =
      if (entries lib file).length ≤ n.toInt then .returned () file
      else if 0 ≤ n.toInt then writeEntries lib opens (lastOf n (entries lib file)) true file
      else .undefined := by
  have hle : Int32.ofNat (entries lib file).length ≤ n ↔
      ((entries lib file).length : Int) ≤ n.toInt := by
    rw [Int32.le_iff_toInt_le, Int32.toInt_ofNat_of_lt hfits]
  rw [unlockedCompact, compactWith, Locked.guarded_free, Locked.reads_bind]
  simp only [hle]
  split
  · rfl
  · rename_i hmore
    by_cases hn : 0 ≤ n.toInt
    · have hstart : ((entries lib file).length - n.toInt).toNat =
          (entries lib file).length - n.toInt.toNat := by omega
      rw [if_pos ⟨by omega, by omega⟩, if_pos hn, hstart, lastOf]
    · rw [if_neg fun h => hn (by omega), if_neg hn]
      rfl

theorem lastOf_all {α : Type} {n : Int32} {l : List α} (h : (l.length : Int) ≤ n.toInt) :
    lastOf n l = l := by
  rw [lastOf, show l.length - n.toInt.toNat = 0 by omega, List.drop_zero]

theorem lastOf_map {α β : Type} (f : α → β) (n : Int32) (l : List α) :
    lastOf n (l.map f) = (lastOf n l).map f := by
  rw [lastOf, lastOf, List.length_map, List.map_drop]

/-- Apart from the mutex, the lines that are kept have to hold no more than an entry does, and a
negative number takes the iterator out of the vector. -/
theorem unlockedCompact_iff {lib : JsonLib} (hlib : lib.Faithful) (hone : OneLine lib) {n : Int32}
    {file : HistoryFile} (hfits : (entries lib file).length < 2 ^ 31) :
    Compacts lib (unlockedCompact lib true n) n file ↔
      0 ≤ n.toInt ∧ ((entries lib file).length ≤ n.toInt ∨
        ∀ record ∈ lastOf n (records lib file), record.1 = toJson record.2) := by
  unfold Compacts
  rw [unlockedCompact_run hfits]
  by_cases hall : (entries lib file).length ≤ n.toInt
  · have hn : 0 ≤ n.toInt := by omega
    have hobjects : ((objects lib file).length : Int) ≤ n.toInt := by
      simpa [objects, entries] using hall
    rw [if_pos hall]
    exact iff_of_true ⟨file, rfl, (lastOf_all hall).symm, (lastOf_all hobjects).symm⟩
      ⟨hn, .inl hall⟩
  · rw [if_neg hall]
    by_cases hn : 0 ≤ n.toInt
    · have htexts : ∀ e ∈ lastOf n (entries lib file), ∀ text ∈ e.texts, Utf8.Text text :=
        fun e he => records_texts hlib.toStrictUtf8 (List.mem_of_mem_drop he)
      have hwritten := records_written hlib hone htexts
      rw [if_pos hn, writeEntries, if_pos rfl, mapM_dump hlib.toStrictUtf8 htexts]
      have hentries : lastOf n (entries lib file) = (lastOf n (records lib file)).map (·.2) :=
        lastOf_map _ n _
      have hobjects : lastOf n (objects lib file) = (lastOf n (records lib file)).map (·.1) :=
        lastOf_map _ n _
      constructor
      · rintro ⟨file', hreturned, -, hsame⟩
        cases hreturned
        refine ⟨hn, .inr ?_⟩
        rw [objects, hwritten, hobjects, hentries, List.map_map, List.map_map] at hsame
        exact fun record hrecord => (List.map_inj_left.mp hsame record hrecord).symm
      · rintro ⟨-, hless | hsame⟩
        · exact absurd hless hall
        · refine ⟨_, rfl, ?_, ?_⟩
          · rw [entries, hwritten, List.map_map]
            exact List.map_id _
          · rw [objects, hwritten, hobjects, hentries, List.map_map, List.map_map]
            exact List.map_congr_left fun record hrecord => (hsame record hrecord).symm
    · rw [if_neg hn]
      refine iff_of_false ?_ fun h => hn h.1
      rintro ⟨file', hreturned, -⟩
      cases hreturned

/-- A line that says which session it is of is not kept as it is. -/
theorem session_not_kept (e : HistoryEntry) : (toJson e).member (lit "session_id") = none := by
  have hkey : lit "session_id" ∉ keys := by decide
  refine Option.map_eq_none_iff.mpr (List.find?_eq_none.mpr fun entry hentry => ?_)
  intro heq
  exact hkey (of_decide_eq_true heq ▸ (mem_members hentry).1)

end JiuwenCore.Compaction
