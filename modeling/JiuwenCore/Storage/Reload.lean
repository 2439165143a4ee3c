import JiuwenCore.Storage.JsonStorage

/-!
# A history after a restart

What a new engine loads of the file an engine has written. A message that is not UTF-8
is kept in memory and lost on the disk, and what loading has dropped from the end of a
history stays in the file, in front of what comes later.
-/

namespace JiuwenCore.JsonStorage

open ContextEngine
open Session (accepted messageTexts Utf8Message)

/-! ## What is loaded is UTF-8 -/

theorem member_utf8 {entry value : Json} (h : entry.Utf8Only) {key : Str}
    (hmember : entry.member key = some value) : value.Utf8Only := by
  cases entry with
  | obj members =>
      obtain ⟨found, hfound, rfl⟩ := Option.map_eq_some_iff.mp hmember
      exact (Json.utf8Only_obj.mp h found (List.mem_of_find?_eq_some hfound)).2
  | _ => cases hmember

theorem getString_utf8 {value : Json} (h : value.Utf8Only) {text : Str}
    (htext : value.getString = some text) : Utf8.Text text := by
  cases value with
  | str s =>
      cases htext
      exact Json.utf8Only_str.mp h
  | _ => cases htext

theorem stringMember_utf8 {entry : Json} (h : entry.Utf8Only) (key : Str) :
    Utf8.Text ((entry.stringMember key).getD []) := by
  cases hstring : entry.stringMember key with
  | none => exact .nil
  | some text =>
      obtain ⟨value, hmember, hvalue⟩ := Option.bind_eq_some_iff.mp hstring
      exact getString_utf8 (member_utf8 h hmember) hvalue

theorem value_utf8 {entry : Json} (h : entry.Utf8Only) {key text : Str}
    (hvalue : entry.value Json.getString key [] = some text) : Utf8.Text text := by
  unfold Json.value at hvalue
  split at hvalue
  · split at hvalue
    · rename_i value hmember
      exact getString_utf8 (member_utf8 h hmember) hvalue
    · cases hvalue
      exact .nil
  · cases hvalue

theorem decodeToolCall_utf8 {entry : Json} (h : entry.Utf8Only) {tc : ToolCall}
    (hdecode : decodeToolCall entry = some tc) :
    ∀ text ∈ [tc.id, tc.name, tc.argumentsJson], Utf8.Text text := by
  obtain ⟨id, hid, hdecode⟩ := Option.bind_eq_some_iff.mp hdecode
  obtain ⟨name, hname, hdecode⟩ := Option.bind_eq_some_iff.mp hdecode
  obtain ⟨arguments, harguments, hdecode⟩ := Option.bind_eq_some_iff.mp hdecode
  cases hdecode
  simp only [List.forall_mem_cons]
  exact ⟨value_utf8 h hid, value_utf8 h hname, value_utf8 h harguments, nofun⟩

theorem mapM_utf8 {items : List Json} (h : ∀ item ∈ items, item.Utf8Only)
    {toolCalls : List ToolCall} (hdecode : items.mapM decodeToolCall = some toolCalls) :
    ∀ tc ∈ toolCalls, ∀ text ∈ [tc.id, tc.name, tc.argumentsJson], Utf8.Text text := by
  induction items generalizing toolCalls with
  | nil =>
      cases hdecode
      nofun
  | cons item rest ih =>
      obtain ⟨hitem, hrest⟩ := List.forall_mem_cons.mp h
      rw [List.mapM_cons] at hdecode
      obtain ⟨tc, htc, hdecode⟩ := Option.bind_eq_some_iff.mp hdecode
      obtain ⟨tcs, htcs, hdecode⟩ := Option.bind_eq_some_iff.mp hdecode
      cases hdecode
      exact List.forall_mem_cons.mpr ⟨decodeToolCall_utf8 hitem htc, ih hrest htcs⟩

theorem decodeMessage_utf8 {entry : Json} (h : entry.Utf8Only) {msg : Message}
    (hdecode : decodeMessage entry = some (some msg)) : Utf8Message msg := by
  unfold decodeMessage at hdecode
  split at hdecode
  · cases hdecode
  · rename_i role hrole
    obtain ⟨toolCalls, hcalls, hguard⟩ := Option.map_eq_some_iff.mp hdecode
    obtain ⟨rfl, _⟩ := Option.guard_eq_some_iff.mp hguard
    have hrole' : Utf8.Text role := by
      have htext := stringMember_utf8 h (lit "role")
      rwa [hrole] at htext
    have hcalls' : ∀ tc ∈ toolCalls, ∀ text ∈ [tc.id, tc.name, tc.argumentsJson],
        Utf8.Text text := by
      unfold decodeToolCalls at hcalls
      split at hcalls
      · rename_i items hmember
        exact mapM_utf8 (Json.utf8Only_arr.mp (member_utf8 h hmember)) hcalls
      · cases hcalls
        exact List.forall_mem_nil _
    simp only [Utf8Message, messageTexts, List.forall_mem_append, List.forall_mem_cons,
      List.forall_mem_flatMap]
    simp only [List.forall_mem_cons] at hcalls'
    exact ⟨⟨hrole', stringMember_utf8 h _, stringMember_utf8 h _, stringMember_utf8 h _,
      stringMember_utf8 h _, stringMember_utf8 h _, List.forall_mem_nil _⟩, hcalls'⟩

theorem loadRows_utf8 {rows : List Json} (h : ∀ row ∈ rows, row.Utf8Only) :
    ∀ msg ∈ (loadRows rows).1, Utf8Message msg := by
  induction rows with
  | nil => exact List.forall_mem_nil _
  | cons entry rest ih =>
      obtain ⟨hentry, hrest⟩ := List.forall_mem_cons.mp h
      rw [loadRows]
      cases hdecode : decodeMessage entry with
      | none => exact List.forall_mem_nil _
      | some row =>
          refine List.forall_mem_append.mpr ⟨fun msg hmsg => ?_, ih hrest⟩
          obtain rfl := Option.mem_toList.mp hmsg
          exact decodeMessage_utf8 hentry hdecode

/-! ## A sequence of messages -/

/-- `AddMessage` for one message after the other, each with the time of its call. -/
def addMessages {σ : Type} (storage : ContextEngine.Storage σ) (calls : List (Str × Message))
    (engine : Engine σ) : Engine σ :=
  calls.foldl (fun engine call => addMessage storage call.1 call.2 engine) engine

/-- The messages the engine has taken over. -/
def acceptedAll (calls : List (Str × Message)) : List Message :=
  calls.flatMap fun call => accepted call.1 call.2

theorem addMessages_buffer {σ : Type} (storage : ContextEngine.Storage σ)
    (calls : List (Str × Message)) (engine : Engine σ) :
    (addMessages storage calls engine).memoryBuffer =
      engine.memoryBuffer ++ acceptedAll calls := by
  induction calls generalizing engine with
  | nil => exact (List.append_nil _).symm
  | cons call rest ih =>
      have hone : (addMessage storage call.1 call.2 engine).memoryBuffer =
          engine.memoryBuffer ++ accepted call.1 call.2 := by
        unfold addMessage accepted
        split
        · rfl
        · exact (List.append_nil _).symm
      rw [acceptedAll, List.flatMap_cons, ← List.append_assoc, ← hone]
      exact ih _

variable {lib : JsonLib}

theorem saveMessage_storage_rows (h : lib.Faithful) (now : Str) (m : Message)
    (engine : Engine HistoryFiles) :
    fileRows lib (addMessage (storage lib) now m engine).storage =
      fileRows lib engine.storage ++
        ((accepted now m).filter Utf8Message).map encodeMessage := by
  unfold addMessage accepted
  split
  · rename_i hvalid
    have hsave := fileRows_saveMessage h (stamp now m) engine.storage
    rw [isValidMessage_stamp] at hsave
    simp only [storage, hsave]
    by_cases hutf8 : Utf8Message (stamp now m)
    · simp [hvalid, hutf8]
    · simp [hutf8]
  · simp

/-- The file gets the rows of the messages that are UTF-8. -/
theorem addMessages_rows (h : lib.Faithful) (calls : List (Str × Message))
    (engine : Engine HistoryFiles) :
    fileRows lib (addMessages (storage lib) calls engine).storage =
      fileRows lib engine.storage ++
        ((acceptedAll calls).filter Utf8Message).map encodeMessage := by
  induction calls generalizing engine with
  | nil => exact (List.append_nil _).symm
  | cons call rest ih =>
      rw [acceptedAll, List.flatMap_cons, List.filter_append, List.map_append,
        ← List.append_assoc, ← saveMessage_storage_rows h call.1 call.2 engine]
      exact ih _

theorem acceptedAll_valid (calls : List (Str × Message)) :
    ∀ m ∈ acceptedAll calls, isValidMessage m = true := by
  intro m hm
  obtain ⟨call, _, hcall⟩ := List.mem_flatMap.mp hm
  unfold accepted at hcall
  split at hcall
  · rename_i hvalid
    rw [List.mem_singleton.mp hcall, isValidMessage_stamp]
    exact hvalid
  · cases hcall

/-- A new engine loads what the first one has loaded, and then what could be saved; it
does not get that far if loading fails. -/
theorem loadHistory_addMessages (h : lib.Faithful) (calls : List (Str × Message))
    (engine : Engine HistoryFiles) :
    loadHistory lib (addMessages (storage lib) calls engine).storage =
      if (loadHistory lib engine.storage).2 then
        ((loadHistory lib engine.storage).1 ++ (acceptedAll calls).filter Utf8Message, true)
      else loadHistory lib engine.storage := by
  have hvalid : ∀ m ∈ (acceptedAll calls).filter Utf8Message, isValidMessage m = true :=
    fun m hm => acceptedAll_valid calls m (List.mem_of_mem_filter hm)
  rw [loadHistory_eq, addMessages_rows h, loadRows_append, loadRows_encode hvalid,
    ← loadHistory_eq]

/-! ## The rows of the session manager -/

variable (lib) in
/-- A file that holds the rows the session manager is stated over. -/
structure Represents (files : HistoryFiles) (rows : List Message) : Prop where
  encoded : fileRows lib files = rows.map encodeMessage
  valid : ∀ m ∈ rows, isValidMessage m = true

theorem represents_missing : Represents lib {} [] := ⟨rfl, nofun⟩

theorem Represents.loadHistory {files : HistoryFiles} {rows : List Message}
    (h : Represents lib files rows) :
    (storage lib).loadHistory files = Session.jsonStorage.loadHistory (some rows) := by
  have hrows := @loadHistory_eq lib files
  rw [h.encoded, loadRows_encode h.valid] at hrows
  exact hrows

/-- Saving to the file simulates saving to the rows. -/
theorem Represents.saveMessage {files : HistoryFiles} {rows : List Message}
    (h : Represents lib files rows) (hlib : lib.Faithful) (m : Message) :
    ∃ rows', Session.jsonStorage.saveMessage (some rows) m = some rows' ∧
      Represents lib ((storage lib).saveMessage files m) rows' := by
  have hsave : fileRows lib ((storage lib).saveMessage files m) = _ :=
    fileRows_saveMessage hlib m files
  by_cases hsaved : isValidMessage m = true ∧ Utf8Message m
  · refine ⟨rows ++ [m], if_pos hsaved, ?_, ?_⟩
    · rw [hsave, if_pos hsaved, h.encoded, List.map_append, List.map_singleton]
    · rw [List.forall_mem_append, List.forall_mem_singleton]
      exact ⟨h.valid, hsaved.1⟩
  · refine ⟨rows, if_neg hsaved, ?_, h.valid⟩
    rw [hsave, if_neg hsaved, List.append_nil, h.encoded]

/-- An engine on the file does what an engine on the rows does. -/
theorem Represents.addMessage {files : HistoryFiles} {rows : List Message}
    (h : Represents lib files rows) (hlib : lib.Faithful) (now : Str) (m : Message)
    (buffer : List Message) :
    ∃ rows', addMessage Session.jsonStorage now m ⟨buffer, some rows⟩ =
        ⟨(addMessage (storage lib) now m ⟨buffer, files⟩).memoryBuffer, some rows'⟩ ∧
      Represents lib (addMessage (storage lib) now m ⟨buffer, files⟩).storage rows' := by
  unfold ContextEngine.addMessage
  split
  · obtain ⟨rows', hsave, hrows'⟩ := h.saveMessage hlib (stamp now m)
    exact ⟨rows', congrArg (Engine.mk _) hsave, hrows'⟩
  · exact ⟨rows, rfl, h⟩

theorem Represents.addMessages (hlib : lib.Faithful) (calls : List (Str × Message))
    {files : HistoryFiles} {rows : List Message} (h : Represents lib files rows)
    (buffer : List Message) :
    ∃ rows', JsonStorage.addMessages Session.jsonStorage calls ⟨buffer, some rows⟩ =
        ⟨(JsonStorage.addMessages (storage lib) calls ⟨buffer, files⟩).memoryBuffer, some rows'⟩ ∧
      Represents lib (JsonStorage.addMessages (storage lib) calls ⟨buffer, files⟩).storage
        rows' := by
  induction calls generalizing files rows buffer with
  | nil => exact ⟨rows, rfl, h⟩
  | cons call rest ih =>
      obtain ⟨rows', hengine, hrows'⟩ := h.addMessage hlib call.1 call.2 buffer
      rw [JsonStorage.addMessages, JsonStorage.addMessages, List.foldl_cons, List.foldl_cons,
        hengine]
      exact ih hrows' _

/-- The messages of a new file are those of new rows, whatever is added. -/
theorem represents_addMessages (hlib : lib.Faithful) (calls : List (Str × Message)) :
    ∃ rows, addMessages Session.jsonStorage calls ⟨[], some []⟩ =
        ⟨(addMessages (storage lib) calls ⟨[], {}⟩).memoryBuffer, some rows⟩ ∧
      Represents lib (addMessages (storage lib) calls ⟨[], {}⟩).storage rows :=
  Represents.addMessages hlib calls represents_missing []

/-! ## When the history survives -/

theorem initializeEngine_buffer (files : HistoryFiles) :
    (initializeEngine (storage lib) files).memoryBuffer =
      if (loadHistory lib files).2 then
        trimOrphanTrailingToolCalls (loadHistory lib files).1
      else (loadHistory lib files).1 := rfl

variable (lib) in
/-- The history found is loaded to its end and does not end with open calls. -/
structure LoadsWhole (files : HistoryFiles) : Prop where
  loads : (loadHistory lib files).2 = true
  untrimmed : trimOrphanTrailingToolCalls (loadHistory lib files).1 = (loadHistory lib files).1

variable (lib) in
/-- The messages only ask for tool calls, or the history found is whole and the messages
up to the last one that does not are UTF-8. -/
def Reloadable (files : HistoryFiles) (calls : List (Str × Message)) : Prop :=
  (∀ m ∈ acceptedAll calls, m.opensCalls) ∧
      ((loadHistory lib files).2 = true ∨
        trimOrphanTrailingToolCalls (loadHistory lib files).1 = (loadHistory lib files).1) ∨
    LoadsWhole lib files ∧
      ∀ m ∈ trimOrphanTrailingToolCalls (acceptedAll calls), Utf8Message m

theorem trim_filter {p : Message → Prop} [DecidablePred p] {msgs : List Message}
    (h : ∀ m ∈ trimOrphanTrailingToolCalls msgs, p m) :
    trimOrphanTrailingToolCalls (msgs.filter p) = trimOrphanTrailingToolCalls msgs := by
  obtain ⟨dropped, hmsgs, hdropped⟩ := exists_trimOrphanTrailingToolCalls msgs
  have hkept : (trimOrphanTrailingToolCalls msgs).filter p = trimOrphanTrailingToolCalls msgs :=
    List.filter_eq_self.mpr fun m hm => decide_eq_true (h m hm)
  have hnil : trimOrphanTrailingToolCalls (dropped.filter p) = [] :=
    trimOrphanTrailingToolCalls_eq_nil.mpr fun m hm => hdropped m (List.mem_of_mem_filter hm)
  calc trimOrphanTrailingToolCalls (msgs.filter p)
      = trimOrphanTrailingToolCalls
          (trimOrphanTrailingToolCalls msgs ++ dropped.filter p) := by
        conv_lhs => rw [hmsgs, List.filter_append, hkept]
    _ = trimOrphanTrailingToolCalls (trimOrphanTrailingToolCalls msgs) := by
        rw [trimOrphanTrailingToolCalls_append, if_pos hnil]
    _ = trimOrphanTrailingToolCalls msgs := List.rdropWhile_idempotent ..

/-- The dropped end of a history that comes back would have to be UTF-8 and no part of
what follows it. -/
theorem whole_of_reloaded {loaded msgs : List Message} (hloaded : ∀ m ∈ loaded, Utf8Message m)
    (hne : trimOrphanTrailingToolCalls msgs ≠ [])
    (h : trimOrphanTrailingToolCalls (loaded ++ msgs.filter Utf8Message) =
      trimOrphanTrailingToolCalls loaded ++ trimOrphanTrailingToolCalls msgs) :
    trimOrphanTrailingToolCalls loaded = loaded ∧
      ∀ m ∈ trimOrphanTrailingToolCalls msgs, Utf8Message m := by
  obtain ⟨dropped, hsplit, _⟩ := exists_trimOrphanTrailingToolCalls loaded
  rw [trimOrphanTrailingToolCalls_append] at h
  split at h
  · exact absurd (List.self_eq_append_right.mp h) hne
  · have hcommon : dropped ++ trimOrphanTrailingToolCalls (msgs.filter Utf8Message) =
        trimOrphanTrailingToolCalls msgs := by
      conv_lhs at h => rw [hsplit, List.append_assoc]
      exact List.append_cancel_left h
    have hutf8 : ∀ m ∈ trimOrphanTrailingToolCalls msgs, Utf8Message m := by
      intro m hm
      rw [← hcommon] at hm
      rcases List.mem_append.mp hm with hm | hm
      · exact hloaded m (by rw [hsplit]; exact List.mem_append_right _ hm)
      · have hfilter := (prefix_trimOrphanTrailingToolCalls _).subset hm
        exact of_decide_eq_true (List.mem_filter.mp hfilter).2
    rw [trim_filter hutf8] at hcommon
    have hnil : dropped = [] := List.append_left_eq_self.mp hcommon
    refine ⟨?_, hutf8⟩
    conv_rhs => rw [hsplit, hnil, List.append_nil]

theorem trimmed_iff {loaded msgs : List Message} (hloaded : ∀ m ∈ loaded, Utf8Message m) :
    trimOrphanTrailingToolCalls (loaded ++ msgs.filter Utf8Message) =
        trimOrphanTrailingToolCalls (trimOrphanTrailingToolCalls loaded ++ msgs) ↔
      (∀ m ∈ msgs, m.opensCalls) ∨ trimOrphanTrailingToolCalls loaded = loaded ∧
        ∀ m ∈ trimOrphanTrailingToolCalls msgs, Utf8Message m := by
  by_cases hopen : ∀ m ∈ msgs, m.opensCalls
  · have hfilter : trimOrphanTrailingToolCalls (msgs.filter Utf8Message) = [] :=
      trimOrphanTrailingToolCalls_eq_nil.mpr fun m hm => hopen m (List.mem_of_mem_filter hm)
    rw [trimOrphanTrailingToolCalls_append, if_pos hfilter, trimOrphanTrailingToolCalls_append,
      if_pos (trimOrphanTrailingToolCalls_eq_nil.mpr hopen)]
    exact iff_of_true (List.rdropWhile_idempotent ..).symm (Or.inl hopen)
  · have hne : trimOrphanTrailingToolCalls msgs ≠ [] :=
      fun hnil => hopen (trimOrphanTrailingToolCalls_eq_nil.mp hnil)
    rw [or_iff_right hopen, trimOrphanTrailingToolCalls_append (trimOrphanTrailingToolCalls loaded),
      if_neg hne]
    constructor
    · exact whole_of_reloaded hloaded hne
    · rintro ⟨hwhole, hutf8⟩
      rw [trimOrphanTrailingToolCalls_append, trim_filter hutf8, if_neg hne, hwhole]

/-- Without the end of the old history nothing new is loaded. -/
theorem stuck_iff (loaded msgs : List Message) :
    loaded = trimOrphanTrailingToolCalls (loaded ++ msgs) ↔
      (∀ m ∈ msgs, m.opensCalls) ∧ trimOrphanTrailingToolCalls loaded = loaded := by
  rw [trimOrphanTrailingToolCalls_append, ← trimOrphanTrailingToolCalls_eq_nil]
  split
  · rename_i hnil
    rw [and_iff_right hnil, eq_comm]
  · rename_i hne
    rw [List.self_eq_append_right]
    exact iff_of_false hne fun h => hne h.1

/-- The two engines compared: what is loaded twice, and the messages in between. -/
theorem reloaded_iff {loaded : List Message × Bool} (hloaded : ∀ m ∈ loaded.1, Utf8Message m)
    (msgs : List Message) :
    (if loaded.2 then trimOrphanTrailingToolCalls (loaded.1 ++ msgs.filter Utf8Message)
      else loaded.1) =
        trimOrphanTrailingToolCalls
          ((if loaded.2 then trimOrphanTrailingToolCalls loaded.1 else loaded.1) ++ msgs) ↔
      (∀ m ∈ msgs, m.opensCalls) ∧
          (loaded.2 = true ∨ trimOrphanTrailingToolCalls loaded.1 = loaded.1) ∨
        (loaded.2 = true ∧ trimOrphanTrailingToolCalls loaded.1 = loaded.1) ∧
          ∀ m ∈ trimOrphanTrailingToolCalls msgs, Utf8Message m := by
  by_cases hok : loaded.2 = true
  · simp only [hok, if_true, true_or, and_true, true_and]
    exact trimmed_iff hloaded
  · simp only [hok, if_false, false_or, false_and, or_false, Bool.false_eq_true]
    exact stuck_iff _ _

theorem loadsWhole_iff {files : HistoryFiles} : LoadsWhole lib files ↔
    (loadHistory lib files).2 = true ∧
      trimOrphanTrailingToolCalls (loadHistory lib files).1 = (loadHistory lib files).1 :=
  ⟨fun h => ⟨h.loads, h.untrimmed⟩, fun h => ⟨h.1, h.2⟩⟩

theorem loadHistory_utf8 (h : lib.Faithful) (files : HistoryFiles) :
    ∀ m ∈ (loadHistory lib files).1, Utf8Message m := by
  rw [loadHistory_eq]
  exact loadRows_utf8 fun row hrow => (fileRows_sound h files row hrow).2

theorem initializeEngine_addMessages (h : lib.Faithful) (files : HistoryFiles)
    (calls : List (Str × Message)) :
    (initializeEngine (storage lib) (addMessages (storage lib) calls
        (initializeEngine (storage lib) files)).storage).memoryBuffer =
      if (loadHistory lib files).2 then
        trimOrphanTrailingToolCalls
          ((loadHistory lib files).1 ++ (acceptedAll calls).filter Utf8Message)
      else (loadHistory lib files).1 := by
  have hstored : (initializeEngine (storage lib) files).storage = files := rfl
  rw [initializeEngine_buffer, loadHistory_addMessages h, hstored]
  split <;> rfl

/-- A new engine on the same path starts with the history of the first one, up to open
calls at its end, exactly if that is reloadable. -/
theorem reload_eq_trimmed_iff (h : lib.Faithful) (files : HistoryFiles)
    (calls : List (Str × Message)) :
    (initializeEngine (storage lib) (addMessages (storage lib) calls
        (initializeEngine (storage lib) files)).storage).memoryBuffer =
      trimOrphanTrailingToolCalls (addMessages (storage lib) calls
        (initializeEngine (storage lib) files)).memoryBuffer ↔
    Reloadable lib files calls := by
  rw [initializeEngine_addMessages h, addMessages_buffer, initializeEngine_buffer, Reloadable,
    loadsWhole_iff]
  exact reloaded_iff (loadHistory_utf8 h files) (acceptedAll calls)

/-- A message that is not UTF-8 stays in memory and is not on the disk. -/
theorem reload_loses_bytes :
    (initializeEngine (storage readerLib) (addMessages (storage readerLib)
        [(lit "2025-01-01T00:00:00Z", { role := Role.user, content := [0xFF] })]
        (initializeEngine (storage readerLib) {})).storage).memoryBuffer ≠
      trimOrphanTrailingToolCalls (addMessages (storage readerLib)
        [(lit "2025-01-01T00:00:00Z", { role := Role.user, content := [0xFF] })]
        (initializeEngine (storage readerLib) {})).memoryBuffer := by
  decide

theorem reload_eq_trimmed_hello :
    (initializeEngine (storage readerLib) (addMessages (storage readerLib)
        [(lit "2025-01-01T00:00:00Z", { role := Role.user, content := lit "hello" })]
        (initializeEngine (storage readerLib) {})).storage).memoryBuffer =
      trimOrphanTrailingToolCalls (addMessages (storage readerLib)
        [(lit "2025-01-01T00:00:00Z", { role := Role.user, content := lit "hello" })]
        (initializeEngine (storage readerLib) {})).memoryBuffer :=
  (reload_eq_trimmed_iff readerLib_faithful {} _).mpr (Or.inr ⟨⟨rfl, rfl⟩, by decide⟩)

end JiuwenCore.JsonStorage
