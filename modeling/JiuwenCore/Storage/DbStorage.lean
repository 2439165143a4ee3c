import JiuwenCore.Storage.Reload

/-!
# The database storage

`DbStorage`: the content of a message is cleaned, its texts are bound and read as C
strings, and the loader has a row filter of its own. The database is a parameter; what
the storage relies on is that a row inserted is selected after the earlier ones of its
session.
-/

namespace JiuwenCore.DbStorage

open ContextEngine
open JsonStorage (decodeToolCall encodeToolCall)
open Session (Utf8Message)

/-! ## Cleaning a content -/

def isLetter (c : UInt8) : Bool := (65 ≤ c ∧ c ≤ 90) ∨ (97 ≤ c ∧ c ≤ 122)

/-- The control characters that are dropped. -/
def isDropped (c : UInt8) : Bool := (c < 0x20 ∧ c ≠ 9 ∧ c ≠ 10 ∧ c ≠ 13) ∨ c = 0x7F

/-- The loop of `CleanMessageContent`. -/
def cleanFrom : Bool → Str → Str
  | _, [] => []
  | false, c :: rest =>
      if c = 0x1B ∧ rest.head? = some 91 then cleanFrom true rest
      else if isDropped c then cleanFrom false rest
      else c :: cleanFrom false rest
  | true, c :: rest => cleanFrom (!isLetter c) rest

def cleanMessageContent (input : Str) : Str := cleanFrom false input

example : cleanMessageContent (lit "a" ++ [0x1B] ++ lit "[1;31mb" ++ [7]) = lit "ab" := by decide

theorem cleanFrom_kept (inEscape : Bool) (input : Str) :
    ∀ c ∈ cleanFrom inEscape input, isDropped c = false := by
  fun_induction cleanFrom inEscape input with
  | case1 => nofun
  | case2 c rest _ ih => exact ih
  | case3 c rest _ _ ih => exact ih
  | case4 c rest _ hkept ih =>
      rw [Bool.not_eq_true] at hkept
      exact List.forall_mem_cons.mpr ⟨hkept, ih⟩
  | case5 c rest ih => exact ih

theorem cleanFrom_of_kept {input : Str} (h : ∀ c ∈ input, isDropped c = false) :
    cleanFrom false input = input := by
  induction input with
  | nil => rfl
  | cons c rest ih =>
      obtain ⟨hc, hrest⟩ := List.forall_mem_cons.mp h
      have hescape : c ≠ 0x1B := by
        rintro rfl
        cases hc
      rw [cleanFrom, if_neg fun hboth => hescape hboth.1, if_neg (by rw [hc]; nofun), ih hrest]

theorem cleanMessageContent_idem (input : Str) :
    cleanMessageContent (cleanMessageContent input) = cleanMessageContent input :=
  cleanFrom_of_kept (cleanFrom_kept false input)

theorem cleanMessageContent_noNul (input : Str) : 0 ∉ cleanMessageContent input := by
  intro h
  have hkept := cleanFrom_kept false input 0 h
  cases hkept

/-- The message with its content cleaned. -/
def cleaned (msg : Message) : Message :=
  { msg with content := cleanMessageContent msg.content }

theorem cleaned_idem (msg : Message) : cleaned (cleaned msg) = cleaned msg := by
  rw [cleaned, cleaned, cleanMessageContent_idem]

/-! ## Rows -/

/-- What a C string holds of a text. -/
def cString (text : Str) : Str := text.takeWhile (· ≠ 0)

theorem cString_eq_self {text : Str} : cString text = text ↔ 0 ∉ text := by
  rw [cString, List.takeWhile_eq_self_iff]
  constructor
  · intro h hzero
    have hne := h 0 hzero
    revert hne
    decide
  · rintro h c hc
    exact decide_eq_true fun hzero => h (hzero ▸ hc)

/-- A row of the table; `none` is NULL. -/
structure Row where
  sessionId : Str
  role : Str
  content : Str
  toolCalls : Option Str
  toolCallId : Option Str
  toolName : Option Str
  payloadRef : Option Str
  timestamp : Option Str
  deriving DecidableEq, Repr

/-- The statements the storage runs on an open database `Db`. -/
structure Sqlite (Db : Type) where
  insert : Row → Db → Db
  /-- The rows of a session in the order of their ids. -/
  select : Str → Db → List Row

/-- The ids increase: an inserted row is the last one of its session. -/
structure Sqlite.Lawful {Db : Type} (sql : Sqlite Db) : Prop where
  select_insert : ∀ row db id, sql.select id (sql.insert row db) =
    sql.select id db ++ if row.sessionId = id then [row] else []

/-- The texts that are bound as NULL when they are empty. -/
def bindText (text : Str) : Option Str := if text = [] then none else some (cString text)

def columnText (column : Option Str) : Str := (column.map cString).getD []

variable (lib : JsonLib)

/-- `EncodeToolCalls`, `none` where it throws. -/
def encodeToolCalls (calls : List ToolCall) : Option Str :=
  if calls = [] then some [] else lib.dump (.arr (calls.map encodeToolCall))

/-- The loop of `DecodeToolCalls`, which an exception ends. -/
def decodeUntilThrow : List Json → List ToolCall
  | [] => []
  | entry :: rest =>
      match decodeToolCall entry with
      | some tc => tc :: decodeUntilThrow rest
      | none => []

def decodeToolCalls (str : Str) : List ToolCall :=
  if str = [] then []
  else
    match lib.parse str with
    | some (.arr items) => decodeUntilThrow items
    | _ => []

def rowOf (sessionId : Str) (msg : Message) (toolCallsStr : Str) : Row where
  sessionId := cString sessionId
  role := cString msg.role
  content := cString (cleanMessageContent msg.content)
  toolCalls := bindText toolCallsStr
  toolCallId := bindText msg.toolCallId
  toolName := bindText msg.toolName
  payloadRef := bindText msg.payloadRef
  timestamp := bindText msg.timestamp

/-- `SaveMessage` with the database it leaves, `none` for a database that did not open.
The result is `none` where it throws. -/
def saveMessage {Db : Type} (sql : Sqlite Db) (sessionId : Str) (msg : Message) (db : Option Db) :
    Option Bool × Option Db :=
  if isValidMessage msg then
    match db with
    | none => (some false, none)
    | some db =>
        match encodeToolCalls lib msg.toolCalls with
        | none => (none, some db)
        | some toolCallsStr =>
            (some true, some (sql.insert (rowOf sessionId msg toolCallsStr) db))
  else (some true, db)

/-- The rows `LoadHistory` does not skip. -/
def isLoadedRow (msg : Message) : Bool :=
  if msg.role = [] then false
  else if msg.isTool ∧ msg.toolCallId = [] then false
  else if msg.isAssistant ∧ msg.content = [] ∧ msg.toolCalls = [] then false
  else true

def loadRow (row : Row) : Option Message :=
  Option.guard isLoadedRow
    { role := cString row.role
      content := cString row.content
      toolCalls := decodeToolCalls lib (columnText row.toolCalls)
      toolCallId := columnText row.toolCallId
      toolName := columnText row.toolName
      payloadRef := columnText row.payloadRef
      timestamp := columnText row.timestamp }

def loadHistory {Db : Type} (sql : Sqlite Db) (sessionId : Str) (db : Option Db) :
    List Message × Bool :=
  match db with
  | none => ([], false)
  | some db => ((sql.select (cString sessionId) db).filterMap (loadRow lib), true)

/-! ## A row is read back -/

section

variable {lib}

theorem cString_idem (text : Str) : cString (cString text) = cString text := by
  refine cString_eq_self.mpr fun h => ?_
  have hne := List.mem_takeWhile_imp h
  revert hne
  decide

theorem columnText_bindText (text : Str) : columnText (bindText text) = cString text := by
  unfold bindText
  split
  · rename_i h
    rw [h]
    rfl
  · exact cString_idem text

theorem decodeUntilThrow_encode (calls : List ToolCall) :
    decodeUntilThrow (calls.map encodeToolCall) = calls := by
  induction calls with
  | nil => rfl
  | cons tc rest ih =>
      rw [List.map_cons, decodeUntilThrow, JsonStorage.decodeToolCall_encodeToolCall]
      exact congrArg (tc :: ·) ih

/-- The tool calls survive the column they are stored in. -/
theorem decodeToolCalls_encodeToolCalls (h : lib.Faithful) {calls : List ToolCall} {str : Str}
    (hstr : encodeToolCalls lib calls = some str) :
    decodeToolCalls lib (columnText (bindText str)) = calls := by
  unfold encodeToolCalls at hstr
  split at hstr
  · rename_i hnil
    cases hstr
    rw [hnil]
    rfl
  · have hregular : (Json.arr (calls.map encodeToolCall)).regular = true := by
      rw [Json.regular_arr, List.forall_mem_map]
      exact fun tc _ => JsonStorage.regular_encodeToolCall tc
    have hparse := h.parse_dump _ str hregular hstr
    have hne : str ≠ [] := by
      rintro rfl
      rw [h.parse_nil] at hparse
      cases hparse
    rw [columnText_bindText, cString_eq_self.mpr (h.dump_noNul _ str hstr), decodeToolCalls,
      if_neg hne, hparse]
    exact decodeUntilThrow_encode calls

/-- A message after its texts were bound and its content was cleaned. -/
def bound (msg : Message) : Message where
  role := cString msg.role
  content := cleanMessageContent msg.content
  toolCalls := msg.toolCalls
  toolCallId := cString msg.toolCallId
  toolName := cString msg.toolName
  payloadRef := cString msg.payloadRef
  timestamp := cString msg.timestamp

theorem loadRow_rowOf (h : lib.Faithful) (sessionId : Str) {msg : Message} {str : Str}
    (hstr : encodeToolCalls lib msg.toolCalls = some str) :
    loadRow lib (rowOf sessionId msg str) = Option.guard isLoadedRow (bound msg) := by
  have hcalls := decodeToolCalls_encodeToolCalls h hstr
  simp only [loadRow, rowOf, hcalls]
  simp only [columnText_bindText, cString_idem,
    cString_eq_self.mpr (cleanMessageContent_noNul msg.content)]
  rfl

theorem encodeToolCalls_isSome (h : lib.Faithful) {msg : Message} (hutf8 : Utf8Message msg) :
    (encodeToolCalls lib msg.toolCalls).isSome := by
  unfold encodeToolCalls
  split
  · rfl
  · rw [h.dump_isSome, Json.utf8Only_arr, List.forall_mem_map]
    intro tc htc
    refine (JsonStorage.utf8_encodeToolCall tc).mpr fun text htext => hutf8 text ?_
    exact List.mem_append_right _ (List.mem_flatMap.mpr ⟨tc, htc, htext⟩)

/-! ## A sequence of messages -/

variable {Db : Type} {sql : Sqlite Db}

variable (lib sql) in
/-- Saves one message after the other. -/
def saveAll (sessionId : Str) (msgs : List Message) (db : Option Db) : Option Db :=
  msgs.foldl (fun db msg => (saveMessage lib sql sessionId msg db).2) db

/-- A database that did not open keeps nothing. -/
theorem saveMessage_none (sessionId : Str) (msg : Message) :
    (saveMessage lib sql sessionId msg none).2 = none := by
  unfold saveMessage
  split <;> rfl

theorem saveMessage_loaded (h : lib.Faithful) (hsql : sql.Lawful) (sessionId : Str)
    {msg : Message} (hutf8 : Utf8Message msg) (db : Db) :
    ∃ db', (saveMessage lib sql sessionId msg (some db)).2 = some db' ∧
      (loadHistory lib sql sessionId (some db')).1 =
        (loadHistory lib sql sessionId (some db)).1 ++
          ([msg].filter isValidMessage).filterMap fun msg =>
            Option.guard isLoadedRow (bound msg) := by
  unfold saveMessage
  by_cases hvalid : isValidMessage msg = true
  · obtain ⟨str, hstr⟩ := Option.isSome_iff_exists.mp (encodeToolCalls_isSome h hutf8)
    rw [if_pos hvalid, hstr, List.filter_cons_of_pos hvalid]
    refine ⟨_, rfl, ?_⟩
    have hid : (rowOf sessionId msg str).sessionId = cString sessionId := rfl
    simp only [loadHistory, hsql.select_insert, if_pos hid, List.filterMap_append]
    simp only [List.filterMap_cons, loadRow_rowOf h sessionId hstr, List.filter_nil]
    cases Option.guard isLoadedRow (bound msg) <;> rfl
  · rw [if_neg hvalid, List.filter_cons_of_neg hvalid]
    exact ⟨db, rfl, (List.append_nil _).symm⟩

/-- The database gives back what binding and cleaning leave of the valid messages. -/
theorem loadHistory_saveAll (h : lib.Faithful) (hsql : sql.Lawful) (sessionId : Str)
    {msgs : List Message} (hutf8 : ∀ msg ∈ msgs, Utf8Message msg) (db : Db) :
    loadHistory lib sql sessionId (saveAll lib sql sessionId msgs (some db)) =
      ((loadHistory lib sql sessionId (some db)).1 ++
        (msgs.filter isValidMessage).filterMap fun msg =>
          Option.guard isLoadedRow (bound msg), true) := by
  induction msgs generalizing db with
  | nil => simp [saveAll, loadHistory]
  | cons msg rest ih =>
      obtain ⟨hmsg, hrest⟩ := List.forall_mem_cons.mp hutf8
      obtain ⟨db', hsave, hload⟩ := saveMessage_loaded h hsql sessionId hmsg db
      have htail := ih hrest db'
      rw [hload, List.append_assoc, ← List.filterMap_append, ← List.filter_append] at htail
      rw [saveAll, List.foldl_cons, hsave]
      exact htail

/-! ## The two storages -/

/-- Two loaded histories that differ only in how their contents are cleaned, and hold
valid messages only. -/
structure Agree (db json : List Message × Bool) : Prop where
  succeeded : db.2 = json.2
  same : db.1.map cleaned = json.1.map cleaned
  dbValid : ∀ msg ∈ db.1, isValidMessage msg = true
  jsonValid : ∀ msg ∈ json.1, isValidMessage msg = true

/-- A message the database keeps: no text is cut at a NUL byte, and what cleaning leaves of
it is still valid. -/
def Portable (msg : Message) : Prop :=
  (∀ text ∈ [msg.role, msg.toolCallId, msg.toolName, msg.payloadRef, msg.timestamp],
      0 ∉ text) ∧
    isValidMessage (cleaned msg) = true

instance (msg : Message) : Decidable (Portable msg) := inferInstanceAs (Decidable (_ ∧ _))

theorem isLoadedRow_of_valid {msg : Message} (h : isValidMessage msg = true) :
    isLoadedRow msg = true := by
  unfold isValidMessage at h
  unfold isLoadedRow
  split_ifs at h ⊢ <;> simp_all [Message.isTool, Message.isAssistant]

theorem bound_eq_cleaned {msg : Message} : cleaned (bound msg) = cleaned msg ↔
    ∀ text ∈ [msg.role, msg.toolCallId, msg.toolName, msg.payloadRef, msg.timestamp],
      0 ∉ text := by
  simp only [cleaned, bound, cleanMessageContent_idem, Message.mk.injEq, cString_eq_self,
    List.forall_mem_cons, true_and]
  simp only [List.not_mem_nil, false_implies, implies_true, and_true]

theorem bound_of_noNul {msg : Message}
    (h : ∀ text ∈ [msg.role, msg.toolCallId, msg.toolName, msg.payloadRef, msg.timestamp],
      0 ∉ text) : bound msg = cleaned msg := by
  rw [← bound_eq_cleaned.mpr h, cleaned, bound, cleanMessageContent_idem]

theorem filterMap_bound {msgs : List Message}
    (h : ∀ msg ∈ msgs, (Option.guard isLoadedRow (bound msg)).isSome) :
    (msgs.filterMap fun msg => Option.guard isLoadedRow (bound msg)) = msgs.map bound := by
  rw [← List.filterMap_eq_map']
  refine List.filterMap_congr fun msg hmsg => ?_
  obtain ⟨out, hout⟩ := Option.isSome_iff_exists.mp (h msg hmsg)
  rw [hout, (Option.guard_eq_some_iff.mp hout).1]

theorem agree_of_portable {msgs : List Message} (hvalid : ∀ msg ∈ msgs, isValidMessage msg = true)
    (h : ∀ msg ∈ msgs, Portable msg) :
    Agree (msgs.filterMap fun msg => Option.guard isLoadedRow (bound msg), true) (msgs, true) := by
  have hbound : ∀ msg ∈ msgs, bound msg = cleaned msg :=
    fun msg hmsg => bound_of_noNul (h msg hmsg).1
  have hloaded : ∀ msg ∈ msgs, (Option.guard isLoadedRow (bound msg)).isSome := by
    intro msg hmsg
    rw [hbound msg hmsg, Option.guard_eq_some_iff.mpr ⟨rfl, isLoadedRow_of_valid (h msg hmsg).2⟩]
    rfl
  rw [filterMap_bound hloaded, List.map_congr_left hbound]
  refine ⟨rfl, ?_, ?_, hvalid⟩
  · rw [List.map_map]
    exact List.map_congr_left fun msg _ => cleaned_idem msg
  · rw [List.forall_mem_map]
    exact fun msg hmsg => (h msg hmsg).2

theorem portable_of_agree {msgs : List Message}
    (h : Agree (msgs.filterMap fun msg => Option.guard isLoadedRow (bound msg), true)
      (msgs, true)) :
    ∀ msg ∈ msgs, Portable msg := by
  -- As many rows are loaded as were saved, so none is skipped.
  have hlength := congrArg List.length h.same
  simp only [List.length_map, List.filterMap_length_eq_length] at hlength
  obtain ⟨_, hsame, hdb, _⟩ := h
  rw [filterMap_bound hlength] at hsame hdb
  simp only [List.map_map, List.map_inj_left, Function.comp_apply, bound_eq_cleaned] at hsame
  intro msg hmsg
  have hbound : isValidMessage (bound msg) = true := hdb _ (List.mem_map_of_mem hmsg)
  rw [bound_of_noNul (hsame msg hmsg)] at hbound
  exact ⟨hsame msg hmsg, hbound⟩

/-- From new stores the two histories agree exactly if every valid message is portable. -/
theorem storages_agree_iff (h : lib.Faithful) (hsql : sql.Lawful) (sessionId : Str) (db : Db)
    (hnew : sql.select (cString sessionId) db = []) (msgs : List Message)
    (hutf8 : ∀ msg ∈ msgs, Utf8Message msg) :
    Agree (loadHistory lib sql sessionId (saveAll lib sql sessionId msgs (some db)))
        (JsonStorage.loadHistory lib (JsonStorage.saveAll lib msgs {})) ↔
      ∀ msg ∈ msgs, isValidMessage msg = true → Portable msg := by
  have hempty : (loadHistory lib sql sessionId (some db)).1 = [] := by
    simp only [loadHistory, hnew, List.filterMap_nil]
  have hvalid : ∀ msg ∈ msgs.filter isValidMessage, isValidMessage msg = true :=
    fun msg hmsg => (List.mem_filter.mp hmsg).2
  rw [loadHistory_saveAll h hsql sessionId hutf8, hempty, List.nil_append,
    JsonStorage.loadHistory_saveAll h hutf8]
  constructor
  · exact fun hagree msg hmsg hmsgValid =>
      portable_of_agree hagree msg (List.mem_filter.mpr ⟨hmsg, hmsgValid⟩)
  · exact fun hportable => agree_of_portable hvalid fun msg hmsg =>
      hportable msg (List.mem_filter.mp hmsg).1 (hvalid msg hmsg)

end

/-- A table as the list of its rows. -/
def listSqlite : Sqlite (List Row) where
  insert := fun row db => db ++ [row]
  select := fun id db => db.filter fun row => row.sessionId = id

theorem listSqlite_lawful : listSqlite.Lawful where
  select_insert := by
    intro row db id
    simp only [listSqlite, List.filter_append, List.filter_singleton, Bool.cond_decide]

/-- A content that is an escape sequence without end is cleaned to nothing. -/
theorem storages_disagree :
    ¬ Agree
      (loadHistory readerLib listSqlite (lit "s") (saveAll readerLib listSqlite (lit "s")
        [{ role := Role.user, content := [0x1B] ++ lit "[31" }] (some [])))
      (JsonStorage.loadHistory readerLib (JsonStorage.saveAll readerLib
        [{ role := Role.user, content := [0x1B] ++ lit "[31" }] {})) :=
  fun h => absurd (h.dbValid { role := Role.user } (by decide)) (by decide)

theorem storages_agree_hello :
    Agree
      (loadHistory readerLib listSqlite (lit "s") (saveAll readerLib listSqlite (lit "s")
        [{ role := Role.user, content := lit "hello" }] (some [])))
      (JsonStorage.loadHistory readerLib (JsonStorage.saveAll readerLib
        [{ role := Role.user, content := lit "hello" }] {})) :=
  (storages_agree_iff readerLib_faithful listSqlite_lawful (lit "s") [] rfl _ (by decide)).mpr
    (by decide)

end JiuwenCore.DbStorage
