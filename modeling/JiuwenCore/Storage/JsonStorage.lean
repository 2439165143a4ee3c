import JiuwenCore.Session.Registry
import JiuwenCore.JsonReader

/-!
# The JSON storage

`JsonStorage` byte by byte: the rows of messages, the file they are kept in, and what a
new engine loads of it. Saving reads the whole file, adds a row and replaces the file by
a temporary one; how each of these file operations ends is an argument.
-/

namespace JiuwenCore.JsonStorage

open ContextEngine Session

/-! ## Rows -/

/-- A member that is only written for a text that is not empty. -/
def textMember (key text : Str) : List (Str × Json) :=
  if text = [] then [] else [(key, .str text)]

/-- The object of one tool call. -/
def encodeToolCall (tc : ToolCall) : Json :=
  .obj [(lit "arguments", .str tc.argumentsJson), (lit "id", .str tc.id),
    (lit "name", .str tc.name)]

def callsMember (toolCalls : List ToolCall) : List (Str × Json) :=
  if toolCalls = [] then [] else [(lit "tool_calls", .arr (toolCalls.map encodeToolCall))]

/-- `EncodeMessage`; the library keeps the members in the order of their keys. -/
def encodeMessage (msg : Message) : Json :=
  .obj ([(lit "content", .str msg.content)] ++ textMember (lit "payload_ref") msg.payloadRef ++
    [(lit "role", .str msg.role)] ++ textMember (lit "timestamp") msg.timestamp ++
    textMember (lit "tool_call_id") msg.toolCallId ++ callsMember msg.toolCalls ++
    textMember (lit "tool_name") msg.toolName)

/-- A tool call of a row: an entry of another shape throws. -/
def decodeToolCall (tc : Json) : Option ToolCall := do
  let id ← tc.value Json.getString (lit "id") []
  let name ← tc.value Json.getString (lit "name") []
  let argumentsJson ← tc.value Json.getString (lit "arguments") []
  some { id, name, argumentsJson }

/-- The tool calls of a row, `none` where one of them throws. -/
def decodeToolCalls (entry : Json) : Option (List ToolCall) :=
  match entry.member (lit "tool_calls") with
  | some (.arr items) => items.mapM decodeToolCall
  | _ => some []

/-- The rows that have a usable payload. -/
def isUsableRow (msg : Message) : Bool :=
  if msg.role = [] then false
  else if msg.isTool ∧ msg.toolCallId = [] then false
  else if ¬ msg.isAssistant ∧ msg.content = [] then false
  else if msg.isAssistant ∧ msg.content = [] ∧ msg.toolCalls = [] then false
  else true

/-- `DecodeMessage`: `none` where it throws, `some none` where it discards the row. -/
def decodeMessage (entry : Json) : Option (Option Message) :=
  match entry.stringMember (lit "role") with
  | none => some none
  | some role => (decodeToolCalls entry).map fun toolCalls =>
      Option.guard isUsableRow
        { role := role
          content := (entry.stringMember (lit "content")).getD []
          toolCalls := toolCalls
          toolCallId := (entry.stringMember (lit "tool_call_id")).getD []
          toolName := (entry.stringMember (lit "tool_name")).getD []
          payloadRef := (entry.stringMember (lit "payload_ref")).getD []
          timestamp := (entry.stringMember (lit "timestamp")).getD [] }

/-! ## The file -/

/-- `history.json` and the file that is renamed to it. -/
structure HistoryFiles where
  filePath : Option Str := none
  tmpPath : Option Str := none
  deriving DecidableEq, Repr

/-- How much of some bytes an operation transfers. -/
inductive Transfer where
  | whole
  | upTo (n : Nat)
  deriving DecidableEq, Repr

def Transfer.apply : Transfer → Str → Str
  | whole, bytes => bytes
  | upTo n, bytes => bytes.take n

/-- How the file operations of one `SaveMessage` end. A stream that fails while it is
written says so in its state only. -/
structure SaveOutcome where
  existsThrows : Bool := false
  opens : Bool := true
  /-- What is read of the file, `none` where reading throws. -/
  reads : Option Transfer := some .whole
  tmpOpens : Bool := true
  writes : Transfer := .whole
  renames : Bool := true
  deriving DecidableEq, Repr

variable (lib : JsonLib)

/-- The rows of a text, if it is an array. -/
def parseRows (text : Str) : Option (List Json) :=
  match lib.parse text with
  | some (.arr rows) => some rows
  | _ => none

/-- A text that is no array counts as an empty history. -/
def rowsOf (text : Str) : List Json := (parseRows lib text).getD []

/-- The history `SaveMessage` adds to, `none` where reading it throws. -/
def readRows (io : SaveOutcome) (file : Option Str) : Option (List Json) :=
  match file with
  | none => some []
  | some text =>
      if io.opens then io.reads.map fun transfer => rowsOf lib (transfer.apply text) else some []

/-- `SaveMessage` from the temporary file on. -/
def writeRows (io : SaveOutcome) (rows : List Json) (files : HistoryFiles) : Bool × HistoryFiles :=
  if io.tmpOpens then
    match lib.dumpIndented 2 (.arr rows) with
    | none => (false, { files with tmpPath := some [] })
    | some text =>
        if io.renames then (true, { filePath := some (io.writes.apply text), tmpPath := none })
        else (false, { files with tmpPath := some (io.writes.apply text) })
  else (false, files)

def saveMessage (io : SaveOutcome) (msg : Message) (files : HistoryFiles) : Bool × HistoryFiles :=
  if isValidMessage msg then
    if io.existsThrows then (false, files)
    else
      match readRows lib io files.filePath with
      | none => (false, files)
      | some rows => writeRows lib io (rows ++ [encodeMessage msg]) files
  else (true, files)

/-- The loop over the rows; an exception ends it and is reported. -/
def loadRows : List Json → List Message × Bool
  | [] => ([], true)
  | entry :: rest =>
      match decodeMessage entry with
      | none => ([], false)
      | some row => (row.toList ++ (loadRows rest).1, (loadRows rest).2)

/-- `LoadHistory` of a file that can be read. -/
def loadHistory (files : HistoryFiles) : List Message × Bool :=
  match files.filePath with
  | none => ([], true)
  | some text => loadRows (rowsOf lib text)

/-- The storage of an engine whose file operations do not fail. -/
def storage : ContextEngine.Storage HistoryFiles where
  saveMessage := fun files msg => (saveMessage lib {} msg files).2
  loadHistory := loadHistory lib

/-! ## A row is read back -/

section

variable {lib}

theorem find_textMember (key name text : Str) :
    (textMember name text).find? (fun entry => entry.1 = key) =
      if name = key ∧ text ≠ [] then some (name, .str text) else none := by
  unfold textMember
  split <;> simp_all

theorem find_callsMember (key : Str) (toolCalls : List ToolCall) :
    (callsMember toolCalls).find? (fun entry => entry.1 = key) =
      if lit "tool_calls" = key ∧ toolCalls ≠ [] then
        some (lit "tool_calls", .arr (toolCalls.map encodeToolCall))
      else none := by
  unfold callsMember
  split <;> simp_all

theorem member_encodeMessage (msg : Message) (key : Str) :
    (encodeMessage msg).member key =
      ((if lit "content" = key then some (Json.str msg.content) else none) <|>
        (if lit "payload_ref" = key ∧ msg.payloadRef ≠ [] then some (.str msg.payloadRef)
          else none) <|>
        (if lit "role" = key then some (.str msg.role) else none) <|>
        (if lit "timestamp" = key ∧ msg.timestamp ≠ [] then some (.str msg.timestamp)
          else none) <|>
        (if lit "tool_call_id" = key ∧ msg.toolCallId ≠ [] then some (.str msg.toolCallId)
          else none) <|>
        (if lit "tool_calls" = key ∧ msg.toolCalls ≠ [] then
          some (.arr (msg.toolCalls.map encodeToolCall)) else none) <|>
        (if lit "tool_name" = key ∧ msg.toolName ≠ [] then some (.str msg.toolName)
          else none)) := by
  have hsingle : ∀ name text, List.find? (fun entry : Str × Json => entry.1 = key)
      [(name, Json.str text)] = if name = key then some (name, .str text) else none := by
    intro name text
    by_cases h : name = key <;> simp [h]
  have hshown : ∀ (shown : Prop) [Decidable shown] (name : Str) (j : Json),
      (if shown then some (name, j) else none).map (·.2) = if shown then some j else none := by
    intro shown _ name j
    split <;> rfl
  simp only [encodeMessage, Json.member, List.find?_append, find_textMember, find_callsMember,
    hsingle, Option.map_or, hshown, Option.orElse_eq_orElse, Option.orElse_eq_or, Option.or_assoc]

theorem decodeToolCall_encodeToolCall (tc : ToolCall) :
    decodeToolCall (encodeToolCall tc) = some tc := rfl

theorem mapM_decodeToolCall (toolCalls : List ToolCall) :
    (toolCalls.map encodeToolCall).mapM decodeToolCall = some toolCalls := by
  induction toolCalls with
  | nil => rfl
  | cons tc rest ih =>
      rw [List.map_cons, List.mapM_cons, decodeToolCall_encodeToolCall, ih]
      rfl

theorem decodeToolCalls_encodeMessage (msg : Message) :
    decodeToolCalls (encodeMessage msg) = some msg.toolCalls := by
  have hmember : (encodeMessage msg).member (lit "tool_calls") =
      if msg.toolCalls ≠ [] then some (.arr (msg.toolCalls.map encodeToolCall)) else none := by
    rw [member_encodeMessage]
    simp +decide
  unfold decodeToolCalls
  rw [hmember]
  by_cases h : msg.toolCalls = []
  · simp [h]
  · rw [if_pos h]
    exact mapM_decodeToolCall msg.toolCalls

/-- An optional member is read back. -/
theorem stringMember_optional (msg : Message) (key text : Str)
    (h : (encodeMessage msg).member key = if text ≠ [] then some (.str text) else none) :
    ((encodeMessage msg).stringMember key).getD [] = text := by
  rw [Json.stringMember, h]
  split
  · rfl
  · rename_i hnil
    exact (not_not.mp hnil).symm

/-- A row is read back, if it is usable. -/
theorem decodeMessage_encodeMessage (msg : Message) :
    decodeMessage (encodeMessage msg) = some (Option.guard isUsableRow msg) := by
  have hrole : (encodeMessage msg).stringMember (lit "role") = some msg.role := by
    rw [Json.stringMember, member_encodeMessage]
    simp +decide [Json.getString]
  have hcontent : (encodeMessage msg).stringMember (lit "content") = some msg.content := rfl
  have hcallId := stringMember_optional msg (lit "tool_call_id") msg.toolCallId
    (by rw [member_encodeMessage]; simp +decide)
  have hname := stringMember_optional msg (lit "tool_name") msg.toolName
    (by rw [member_encodeMessage]; simp +decide)
  have hpayload := stringMember_optional msg (lit "payload_ref") msg.payloadRef
    (by rw [member_encodeMessage]; simp +decide)
  have htimestamp := stringMember_optional msg (lit "timestamp") msg.timestamp
    (by rw [member_encodeMessage]; simp +decide)
  unfold decodeMessage
  rw [hrole]
  simp only [decodeToolCalls_encodeMessage, hcontent, hcallId, hname, hpayload, htimestamp,
    Option.map_some, Option.getD_some]

theorem isUsableRow_of_valid {msg : Message} (h : isValidMessage msg = true) :
    isUsableRow msg = true := by
  unfold isValidMessage at h
  unfold isUsableRow
  split_ifs at h ⊢ <;> simp_all [Message.isTool, Message.isAssistant]

theorem loadRows_append (rows rest : List Json) :
    loadRows (rows ++ rest) =
      if (loadRows rows).2 then ((loadRows rows).1 ++ (loadRows rest).1, (loadRows rest).2)
      else loadRows rows := by
  induction rows with
  | nil => simp [loadRows]
  | cons entry rows ih =>
      rw [List.cons_append, loadRows, loadRows]
      cases decodeMessage entry with
      | none => rfl
      | some row =>
          simp only [ih]
          split <;> simp [List.append_assoc]

/-- The rows of valid messages are loaded as these. -/
theorem loadRows_encode {msgs : List Message} (h : ∀ msg ∈ msgs, isValidMessage msg = true) :
    loadRows (msgs.map encodeMessage) = (msgs, true) := by
  induction msgs with
  | nil => rfl
  | cons msg rest ih =>
      obtain ⟨hmsg, hrest⟩ := List.forall_mem_cons.mp h
      rw [List.map_cons, loadRows, decodeMessage_encodeMessage,
        Option.guard_eq_some_iff.mpr ⟨rfl, isUsableRow_of_valid hmsg⟩]
      simp only [ih hrest]
      rfl

/-! ## A row is dumped -/

theorem utf8_textMember {key : Str} (hkey : Utf8.Text key) (text : Str) :
    (∀ entry ∈ textMember key text, Utf8.Text entry.1 ∧ entry.2.Utf8Only) ↔ Utf8.Text text := by
  unfold textMember
  split
  · rename_i h
    rw [h]
    exact iff_of_true nofun .nil
  · simp [hkey]

theorem utf8_encodeToolCall (tc : ToolCall) : (encodeToolCall tc).Utf8Only ↔
    ∀ text ∈ [tc.id, tc.name, tc.argumentsJson], Utf8.Text text := by
  have hid : Utf8.Text (lit "id") := Utf8.Ascii.text (by decide)
  have hname : Utf8.Text (lit "name") := Utf8.Ascii.text (by decide)
  have harguments : Utf8.Text (lit "arguments") := Utf8.Ascii.text (by decide)
  simp only [encodeToolCall, Json.utf8Only_obj, List.forall_mem_cons, Json.utf8Only_str, hid,
    hname, harguments, true_and, List.not_mem_nil, false_implies, implies_true, and_true]
  tauto

theorem utf8_callsMember (toolCalls : List ToolCall) :
    (∀ entry ∈ callsMember toolCalls, Utf8.Text entry.1 ∧ entry.2.Utf8Only) ↔
      ∀ tc ∈ toolCalls, ∀ text ∈ [tc.id, tc.name, tc.argumentsJson], Utf8.Text text := by
  have hkey : Utf8.Text (lit "tool_calls") := Utf8.Ascii.text (by decide)
  unfold callsMember
  split
  · rename_i h
    rw [h]
    exact iff_of_true nofun nofun
  · rw [List.forall_mem_singleton, and_iff_right hkey, Json.utf8Only_arr, List.forall_mem_map]
    exact forall₂_congr fun tc _ => utf8_encodeToolCall tc

theorem utf8_encodeMessage (msg : Message) :
    (encodeMessage msg).Utf8Only ↔ Utf8Message msg := by
  have hkey : ∀ key ∈ [lit "content", lit "payload_ref", lit "role", lit "timestamp",
      lit "tool_call_id", lit "tool_name"], Utf8.Text key := by
    intro key hkey
    have hascii : ∀ key ∈ [lit "content", lit "payload_ref", lit "role", lit "timestamp",
        lit "tool_call_id", lit "tool_name"], Utf8.Ascii key := by decide
    exact (hascii key hkey).text
  simp only [List.forall_mem_cons] at hkey
  obtain ⟨hcontent, hpayload, hrole, htimestamp, hcallId, hname, _⟩ := hkey
  simp only [encodeMessage, Json.utf8Only_obj, List.forall_mem_append, List.forall_mem_singleton,
    utf8_textMember hpayload, utf8_textMember htimestamp, utf8_textMember hcallId,
    utf8_textMember hname, utf8_callsMember, hcontent, hrole, Json.utf8Only_str, true_and]
  simp only [Utf8Message, messageTexts, List.forall_mem_append, List.forall_mem_cons,
    List.forall_mem_flatMap]
  tauto

theorem keys_textMember (key text : Str) : ((textMember key text).map (·.1)).Sublist [key] := by
  unfold textMember
  split
  · exact List.nil_sublist _
  · exact List.Sublist.refl _

theorem keys_callsMember (toolCalls : List ToolCall) :
    ((callsMember toolCalls).map (·.1)).Sublist [lit "tool_calls"] := by
  unfold callsMember
  split
  · exact List.nil_sublist _
  · exact List.Sublist.refl _

theorem regular_encodeToolCall (tc : ToolCall) : (encodeToolCall tc).regular = true := by
  have hkeys : [lit "arguments", lit "id", lit "name"].Pairwise (· < ·) := by decide
  refine Json.regular_obj.mpr ⟨hkeys, ?_⟩
  intro entry hentry
  simp only [List.mem_cons, List.not_mem_nil, or_false] at hentry
  rcases hentry with rfl | rfl | rfl <;> rfl

theorem regular_encodeMessage (msg : Message) : (encodeMessage msg).regular = true := by
  have hall : [lit "content", lit "payload_ref", lit "role", lit "timestamp",
      lit "tool_call_id", lit "tool_calls", lit "tool_name"].Pairwise (· < ·) := by decide
  refine Json.regular_obj.mpr ⟨hall.sublist ?_, ?_⟩
  · simp only [List.map_append]
    exact ((((((List.Sublist.refl [lit "content"]).append (keys_textMember _ _)).append
      (List.Sublist.refl [lit "role"])).append (keys_textMember _ _)).append
      (keys_textMember _ _)).append (keys_callsMember _)).append (keys_textMember _ _)
  · have htext : ∀ key text, ∀ entry ∈ textMember key text, entry.2.regular = true := by
      intro key text entry hentry
      unfold textMember at hentry
      split at hentry
      · cases hentry
      · rw [List.mem_singleton.mp hentry]
        rfl
    have hcalls : ∀ entry ∈ callsMember msg.toolCalls, entry.2.regular = true := by
      intro entry hentry
      unfold callsMember at hentry
      split at hentry
      · cases hentry
      · rw [List.mem_singleton.mp hentry]
        refine Json.regular_arr.mpr ?_
        rw [List.forall_mem_map]
        exact fun tc _ => regular_encodeToolCall tc
    simp only [List.forall_mem_append, List.forall_mem_singleton]
    exact ⟨⟨⟨⟨⟨⟨rfl, htext _ _⟩, rfl⟩, htext _ _⟩, htext _ _⟩, hcalls⟩, htext _ _⟩

end

/-! ## What a save leaves -/

/-- The rows of the file, none if it is missing or no array. -/
def fileRows (files : HistoryFiles) : List Json := (files.filePath.map (rowsOf lib)).getD []

variable {lib}

theorem loadHistory_eq (files : HistoryFiles) :
    loadHistory lib files = loadRows (fileRows lib files) := by
  unfold loadHistory fileRows
  cases files.filePath <;> rfl

theorem readRows_eq (file : Option Str) :
    readRows lib {} file = some ((file.map (rowsOf lib)).getD []) := by
  cases file <;> rfl

theorem parseRows_sound (h : lib.Faithful) {text : Str} {rows : List Json}
    (hrows : parseRows lib text = some rows) :
    ∀ row ∈ rows, row.regular = true ∧ row.Utf8Only := by
  have hparse : lib.parse text = some (.arr rows) := by
    unfold parseRows at hrows
    split at hrows
    · rename_i parsed heq
      cases hrows
      exact heq
    · cases hrows
  have hregular := Json.regular_arr.mp (h.parse_regular _ _ hparse)
  have hutf8 := Json.utf8Only_arr.mp (h.parse_utf8 _ _ hparse)
  exact fun row hrow => ⟨hregular row hrow, hutf8 row hrow⟩

theorem rowsOf_sound (h : lib.Faithful) (text : Str) :
    ∀ row ∈ rowsOf lib text, row.regular = true ∧ row.Utf8Only := by
  unfold rowsOf
  cases hrows : parseRows lib text with
  | none => nofun
  | some rows => exact parseRows_sound h hrows

theorem fileRows_sound (h : lib.Faithful) (files : HistoryFiles) :
    ∀ row ∈ fileRows lib files, row.regular = true ∧ row.Utf8Only := by
  unfold fileRows
  cases files.filePath with
  | none => nofun
  | some text => exact rowsOf_sound h text

/-- The text of an array is parsed to its rows. -/
theorem parseRows_dumped (h : lib.Faithful) {rows : List Json} {text : Str}
    (hrows : ∀ row ∈ rows, row.regular = true)
    (htext : lib.dumpIndented 2 (.arr rows) = some text) : parseRows lib text = some rows := by
  rw [parseRows, h.parse_dumpIndented 2 _ _ (Json.regular_arr.mpr hrows) htext]

/-- The rows with a new one are dumped exactly when the message is UTF-8. -/
theorem dumped_iff (h : lib.Faithful) {rows : List Json} (hrows : ∀ row ∈ rows, row.Utf8Only)
    (msg : Message) :
    (lib.dumpIndented 2 (.arr (rows ++ [encodeMessage msg]))).isSome ↔ Utf8Message msg := by
  rw [h.dumpIndented_isSome, Json.utf8Only_arr, List.forall_mem_append, and_iff_right hrows,
    List.forall_mem_singleton, utf8_encodeMessage]

/-- A save whose file operations do not fail adds the row of a valid message that is
UTF-8, and no other. -/
theorem fileRows_saveMessage (h : lib.Faithful) (msg : Message) (files : HistoryFiles) :
    fileRows lib (saveMessage lib {} msg files).2 =
      fileRows lib files ++
        if isValidMessage msg ∧ Utf8Message msg then [encodeMessage msg] else [] := by
  have hsound := fileRows_sound h files
  have hdumped := dumped_iff h (fun row hrow => (hsound row hrow).2) msg
  have hread : readRows lib {} files.filePath = some (fileRows lib files) := readRows_eq _
  unfold saveMessage
  by_cases hvalid : isValidMessage msg = true
  · rw [if_pos hvalid, if_neg nofun, hread]
    cases htext : lib.dumpIndented 2 (.arr (fileRows lib files ++ [encodeMessage msg])) with
    | none =>
        have hutf8 : ¬ Utf8Message msg := by
          rw [← hdumped, htext]
          nofun
        simp only [writeRows, htext, if_true]
        rw [if_neg fun hboth => hutf8 hboth.2, List.append_nil]
        rfl
    | some text =>
        have hutf8 : Utf8Message msg := by
          rw [← hdumped, htext]
          rfl
        have hregular : ∀ row ∈ fileRows lib files ++ [encodeMessage msg],
            row.regular = true := by
          rw [List.forall_mem_append, List.forall_mem_singleton]
          exact ⟨fun row hrow => (hsound row hrow).1, regular_encodeMessage msg⟩
        have hparse := parseRows_dumped h hregular htext
        simp only [writeRows, htext, if_true]
        rw [if_pos ⟨hvalid, hutf8⟩]
        exact congrArg (·.getD []) hparse
  · rw [if_neg hvalid, if_neg fun hboth => hvalid hboth.1, List.append_nil]

variable (lib) in
/-- Saves one message after the other. -/
def saveAll (msgs : List Message) (files : HistoryFiles) : HistoryFiles :=
  msgs.foldl (fun files msg => (saveMessage lib {} msg files).2) files

theorem fileRows_saveAll (h : lib.Faithful) {msgs : List Message}
    (hutf8 : ∀ msg ∈ msgs, Utf8Message msg) (files : HistoryFiles) :
    fileRows lib (saveAll lib msgs files) =
      fileRows lib files ++ (msgs.filter isValidMessage).map encodeMessage := by
  induction msgs generalizing files with
  | nil => exact (List.append_nil _).symm
  | cons msg rest ih =>
      obtain ⟨hmsg, hrest⟩ := List.forall_mem_cons.mp hutf8
      have htail := ih hrest (saveMessage lib {} msg files).2
      rw [fileRows_saveMessage h, List.append_assoc] at htail
      refine htail.trans (congrArg _ ?_)
      by_cases hvalid : isValidMessage msg = true
      · rw [if_pos ⟨hvalid, hmsg⟩, List.filter_cons_of_pos hvalid]
        rfl
      · rw [if_neg fun hboth => hvalid hboth.1, List.filter_cons_of_neg hvalid]
        rfl

/-- The valid messages of a new file are loaded as they are. -/
theorem loadHistory_saveAll (h : lib.Faithful) {msgs : List Message}
    (hutf8 : ∀ msg ∈ msgs, Utf8Message msg) :
    loadHistory lib (saveAll lib msgs {}) = (msgs.filter isValidMessage, true) := by
  rw [loadHistory_eq, fileRows_saveAll h hutf8]
  exact loadRows_encode fun msg hmsg => (List.mem_filter.mp hmsg).2

end JiuwenCore.JsonStorage
