import JiuwenCore.Models.OpenAIFormat
import JiuwenCore.Models.RequestText

/-!
# Which OpenAI requests can be sent

The strings of the payload, message by message. The statistics over the entries read
only what the formatter has written and never fail.
-/

namespace JiuwenCore.Models.OpenAI

open Utf8

theorem Entry.utf8Only_iff (entry : Entry) :
    entry.toJson.Utf8Only ↔ Text entry.content ∧ Text entry.role ∧
      (∀ id, entry.toolCallId = some id → Text id) ∧
      ∀ calls, entry.toolCalls = some calls → ∀ j ∈ calls, j.Utf8Only := by
  have hcontent : Text (lit "content") := by decide
  have hrole : Text (lit "role") := by decide
  have hid : Text (lit "tool_call_id") := by decide
  have hcalls : Text (lit "tool_calls") := by decide
  rcases entry with ⟨role, content, id, calls⟩
  rw [Entry.toJson, Json.utf8Only_obj]
  cases id <;> cases calls <;> simp [hcontent, hrole, hid, hcalls, Json.utf8Only_arr]

/-- Every string of the entries is UTF-8. -/
def EntriesText (entries : List Entry) : Prop := ∀ entry ∈ entries, entry.toJson.Utf8Only

theorem entriesText_append {entries rest : List Entry} :
    EntriesText (entries ++ rest) ↔ EntriesText entries ∧ EntriesText rest :=
  List.forall_mem_append

theorem entriesText_singleton {entry : Entry} : EntriesText [entry] ↔ entry.toJson.Utf8Only :=
  List.forall_mem_singleton

def NativeCall (tc : ToolCall) : Prop := Text tc.id ∧ Text tc.name ∧ Text tc.argumentsJson

theorem callJson_utf8Only (tc : ToolCall) : (callJson tc).Utf8Only ↔ NativeCall tc := by
  have hkeys : Text (lit "arguments") ∧ Text (lit "name") ∧ Text (lit "function") ∧
      Text (lit "id") ∧ Text (lit "type") := by decide
  rw [callJson, Json.utf8Only_obj]
  simp [Json.utf8Only_obj, hkeys, NativeCall]
  tauto

theorem textEntry_utf8Only {role text : Str} :
    (Entry.toJson { role := role, content := text }).Utf8Only ↔ Text text ∧ Text role := by
  simp [Entry.utf8Only_iff]

theorem role_assistant_text : Text Role.assistant := by decide
theorem role_tool_text : Text Role.tool := by decide
theorem role_user_text : Text Role.user := by decide

section

variable {lib : JsonLib} (hlib : lib.StrictUtf8)

include hlib

theorem assistantEntry_text (useNative : Bool) {fixed : Str} (hfixed : Text fixed)
    (toolCalls : List ToolCall) :
    (∃ entry, assistantEntry lib useNative fixed toolCalls = some entry ∧
        entry.toJson.Utf8Only) ↔
      ∀ tc ∈ toolCalls, if useNative then NativeCall tc else WritableCall lib tc := by
  by_cases hcalls : toolCalls = []
  · subst hcalls
    simp [assistantEntry, textEntry_utf8Only, hfixed, role_assistant_text]
  · cases useNative with
    | true =>
        simp [assistantEntry, hcalls, Entry.utf8Only_iff, hfixed, role_assistant_text,
          callJson_utf8Only]
    | false =>
        have hwritten := serializedContent_text hlib hfixed toolCalls
        simpa [assistantEntry, hcalls, textEntry_utf8Only, role_assistant_text] using hwritten

end

theorem appendObservation_text {entries : List Entry} {fixed : Str} (hfixed : Text fixed) :
    EntriesText (appendObservation entries fixed) ↔ EntriesText entries := by
  have hobservation : Text (lit "Observation:\n" ++ fixed) :=
    (show Ascii (lit "Observation:\n") by decide).append_iff.mpr hfixed
  have hpushed : EntriesText
      (entries ++ [{ role := Role.user, content := lit "Observation:\n" ++ fixed }]) ↔
        EntriesText entries := by
    rw [entriesText_append, entriesText_singleton, textEntry_utf8Only]
    exact and_iff_left ⟨hobservation, role_user_text⟩
  unfold appendObservation
  cases hlast : entries.getLast? with
  | none => exact hpushed
  | some back =>
      simp only
      split
      · have hentries : entries = entries.dropLast ++ [back] := by
          rw [List.dropLast_append_getLast? back hlast]
        conv_rhs => rw [hentries]
        rw [entriesText_append, entriesText_append, entriesText_singleton, entriesText_singleton,
          Entry.utf8Only_iff, Entry.utf8Only_iff]
        refine and_congr_right fun _ => and_congr_left fun _ => ?_
        simp only
        split
        · rename_i hnil
          rw [hnil]
          exact iff_of_true hobservation .nil
        · have hblank : Ascii (lit "\n\n") := by decide
          rw [List.append_assoc, hblank.between_iff (by decide)]
          exact and_iff_left hobservation
      · exact hpushed

section

variable {lib : JsonLib} (hlib : lib.StrictUtf8)

include hlib

/-- One message: its strings join those of the entries. -/
theorem formatMessage_text (useNative : Bool) (entries : List Entry) (m : Message) :
    (∃ entries', formatMessage lib useNative entries m = some entries' ∧ EntriesText entries') ↔
      EntriesText entries ∧ MessageText NativeCall lib useNative m := by
  have hfixed := fixStringUTF8_text m.content
  unfold formatMessage MessageText
  by_cases hassistant : m.role = Role.assistant
  · have hentry := assistantEntry_text hlib useNative hfixed m.toolCalls
    simp only [if_pos hassistant, ← hentry]
    cases assistantEntry lib useNative (fixStringUTF8 m.content) m.toolCalls with
    | none => simp
    | some entry => simp [entriesText_append, entriesText_singleton]
  · by_cases htool : m.role = Role.tool
    · cases useNative with
      | true =>
          simp [Message.isAssistant, Message.isTool, htool, entriesText_append,
            entriesText_singleton, Entry.utf8Only_iff, hfixed, role_tool_text]
      | false =>
          simp [Message.isAssistant, Message.isTool, htool, appendObservation_text hfixed]
    · simp [Message.isAssistant, Message.isTool, hassistant, htool, entriesText_append,
        entriesText_singleton, textEntry_utf8Only, hfixed]

theorem formatMessages_text (useNative : Bool) (messages : List Message) (entries : List Entry) :
    (∃ entries', messages.foldlM (formatMessage lib useNative) entries = some entries' ∧
        EntriesText entries') ↔
      EntriesText entries ∧ ∀ m ∈ messages, MessageText NativeCall lib useNative m := by
  induction messages generalizing entries with
  | nil => simp
  | cons m rest ih =>
      rw [List.forall_mem_cons, ← and_assoc, ← formatMessage_text hlib]
      cases hstep : formatMessage lib useNative entries m with
      | none => simp [List.foldlM_cons, hstep]
      | some entries₁ =>
          rw [List.foldlM_cons, hstep, Option.bind_eq_bind, Option.bind_some, ih]
          simp

end

/-! ## The pairing statistics -/

theorem countCalls_isSome (calls : List ToolCall) (stats : ToolPairingStats) :
    ∃ stats', (calls.map callJson).foldlM countCall stats = some stats' := by
  induction calls generalizing stats with
  | nil => exact ⟨stats, rfl⟩
  | cons tc rest ih =>
      have hstep : ∃ stats₁, countCall stats (callJson tc) = some stats₁ := by
        by_cases hid : tc.id = []
        · exact ⟨_, if_pos hid⟩
        · exact ⟨_, if_neg hid⟩
      obtain ⟨stats₁, hstep⟩ := hstep
      rw [List.map_cons, List.foldlM_cons, hstep]
      exact ih stats₁

/-- An entry whose calls, if it has any, the statistics can read. -/
def Counted (entry : Entry) : Prop :=
  ∀ calls, entry.toolCalls = some calls → ∃ tcs : List ToolCall, calls = tcs.map callJson

theorem countResult_isSome (stats : ToolPairingStats) (role : Str) (entry : Entry) :
    ∃ stats', countMessage.countResult stats role entry.toJson = some stats' := by
  have hid : ∃ id, entry.toJson.value Json.getString (lit "tool_call_id") [] = some id := by
    rcases entry with ⟨role, content, id, calls⟩
    cases id <;> cases calls <;> exact ⟨_, rfl⟩
  obtain ⟨id, hid⟩ := hid
  unfold countMessage.countResult
  split
  · rw [hid, Option.bind_eq_bind, Option.bind_some]
    split <;> exact ⟨_, rfl⟩
  · exact ⟨_, rfl⟩

theorem countMessage_isSome {entry : Entry} (h : Counted entry) (stats : ToolPairingStats) :
    ∃ stats', countMessage stats entry.toJson = some stats' := by
  have hrole : entry.toJson.value Json.getString (lit "role") [] = some entry.role := rfl
  have hcalls : entry.toJson.member (lit "tool_calls") = entry.toolCalls.map Json.arr := by
    rcases entry with ⟨role, content, id, calls⟩
    cases id <;> cases calls <;> rfl
  unfold countMessage
  rw [hrole, hcalls, Option.bind_eq_bind, Option.bind_some]
  cases htool : entry.toolCalls with
  | none => exact countResult_isSome stats _ entry
  | some calls =>
      obtain ⟨tcs, rfl⟩ := h calls htool
      simp only [Option.map_some]
      split
      · exact countCalls_isSome tcs stats
      · exact countResult_isSome stats _ entry

theorem validateToolPairing_isSome {entries : List Entry} (h : ∀ entry ∈ entries, Counted entry) :
    ∃ stats, validateToolPairing (entries.map Entry.toJson) = some stats := by
  have hrun : ∀ stats, ∃ stats',
      (entries.map Entry.toJson).foldlM countMessage stats = some stats' := by
    induction entries with
    | nil => exact fun stats => ⟨stats, rfl⟩
    | cons entry rest ih =>
        intro stats
        obtain ⟨stats₁, hstep⟩ := countMessage_isSome (h entry List.mem_cons_self) stats
        rw [List.map_cons, List.foldlM_cons, hstep]
        exact ih (fun e he => h e (List.mem_cons_of_mem entry he)) stats₁
  exact hrun {}

theorem Counted.of_text {role content : Str} {id : Option Str} :
    Counted { role := role, content := content, toolCallId := id } := fun _ h => by cases h

theorem assistantEntry_counted {lib : JsonLib} {useNative : Bool} {fixed : Str}
    {toolCalls : List ToolCall} {entry : Entry}
    (h : assistantEntry lib useNative fixed toolCalls = some entry) : Counted entry := by
  unfold assistantEntry at h
  split at h
  · cases h
    exact fun calls hcalls => ⟨toolCalls, (Option.some.inj hcalls).symm⟩
  · split at h
    · obtain ⟨calls, _, rfl⟩ := Option.map_eq_some_iff.mp h
      exact .of_text
    · cases h
      exact .of_text

theorem appendObservation_counted {entries : List Entry} (h : ∀ entry ∈ entries, Counted entry)
    (fixed : Str) : ∀ entry ∈ appendObservation entries fixed, Counted entry := by
  have hpushed : ∀ entry ∈
      entries ++ [{ role := Role.user, content := lit "Observation:\n" ++ fixed }], Counted entry :=
    List.forall_mem_append.mpr ⟨h, List.forall_mem_singleton.mpr .of_text⟩
  unfold appendObservation
  cases hlast : entries.getLast? with
  | none => exact hpushed
  | some back =>
      simp only
      split
      · have hback : Counted back := h back (List.mem_of_getLast? hlast)
        have hfront : ∀ entry ∈ entries.dropLast, Counted entry := fun entry he =>
          h entry (List.mem_of_mem_dropLast he)
        exact List.forall_mem_append.mpr ⟨hfront, List.forall_mem_singleton.mpr hback⟩
      · exact hpushed

theorem formatMessage_counted {lib : JsonLib} {useNative : Bool} {entries entries' : List Entry}
    {m : Message} (hrun : formatMessage lib useNative entries m = some entries')
    (h : ∀ entry ∈ entries, Counted entry) : ∀ entry ∈ entries', Counted entry := by
  unfold formatMessage at hrun
  simp only at hrun
  split at hrun
  · obtain ⟨entry, hentry, rfl⟩ := Option.map_eq_some_iff.mp hrun
    exact List.forall_mem_append.mpr
      ⟨h, List.forall_mem_singleton.mpr (assistantEntry_counted hentry)⟩
  · split at hrun
    · split at hrun
      · cases hrun
        exact List.forall_mem_append.mpr ⟨h, List.forall_mem_singleton.mpr .of_text⟩
      · cases hrun
        exact appendObservation_counted h _
    · cases hrun
      exact List.forall_mem_append.mpr ⟨h, List.forall_mem_singleton.mpr .of_text⟩

theorem formatMessages_counted {lib : JsonLib} {useNative : Bool} {messages : List Message}
    {entries entries' : List Entry}
    (hrun : messages.foldlM (formatMessage lib useNative) entries = some entries')
    (h : ∀ entry ∈ entries, Counted entry) : ∀ entry ∈ entries', Counted entry := by
  induction messages generalizing entries with
  | nil =>
      cases hrun
      exact h
  | cons m rest ih =>
      obtain ⟨entries₁, hstep, hrest⟩ := Option.bind_eq_some_iff.mp hrun
      exact ih hrest (formatMessage_counted hstep h)

/-! ## The payload -/

theorem toolsArrayJson_utf8Only (tools : List ToolSchema) :
    (toolsArrayJson tools).Utf8Only ↔ ∀ t ∈ tools, t.Utf8Only := by
  have hkeys : Text (lit "description") ∧ Text (lit "name") ∧ Text (lit "parameters") ∧
      Text (lit "function") ∧ Text (lit "type") := by decide
  rw [toolsArrayJson, Json.utf8Only_arr, List.forall_mem_map]
  refine forall₂_congr fun t _ => ?_
  simp [Json.utf8Only_obj, hkeys, ToolSchema.Utf8Only]
  tauto

/-- The parameters have ASCII keys and numbers or truth values. -/
theorem floatParam_text (config : FormatConfig) {key : Str} (hkey : Text key) :
    MembersText (floatParam config key).toList := by
  unfold floatParam MembersText
  split <;> simp [hkey]

theorem intParam_text (config : FormatConfig) {key : Str} (hkey : Text key) :
    MembersText (intParam config key).toList := by
  unfold intParam MembersText
  split <;> simp [hkey]

theorem boolParam_text (config : FormatConfig) {key : Str} (hkey : Text key) :
    MembersText (boolParam config key).toList := by
  unfold boolParam MembersText
  split <;> simp [hkey]

theorem payloadMembers_utf8Only (config : FormatConfig) (messages : Json)
    (tools : List ToolSchema) :
    (Json.obj (payloadMembers config messages tools)).Utf8Only ↔
      Text config.modelName ∧ messages.Utf8Only ∧
        (config.useNativeFunctionCalling = true → ∀ t ∈ tools, t.Utf8Only) := by
  have hfrequency := floatParam_text config (show Text (lit "frequency_penalty") by decide)
  have hmax := intParam_text config (show Text (lit "max_tokens") by decide)
  have hpresence := floatParam_text config (show Text (lit "presence_penalty") by decide)
  have hseed := intParam_text config (show Text (lit "seed") by decide)
  have htemperature := floatParam_text config (show Text (lit "temperature") by decide)
  have htop := floatParam_text config (show Text (lit "top_p") by decide)
  have hstream : MembersText [(lit "stream", .bool true)] :=
    membersText_singleton.mpr ⟨by decide, Json.utf8Only_bool⟩
  have hmain : MembersText [(lit "messages", messages), (lit "model", .str config.modelName)] ↔
      messages.Utf8Only ∧ Text config.modelName := by
    have hkeys : Text (lit "messages") ∧ Text (lit "model") := by decide
    simp [MembersText, hkeys]
  have hparallel : MembersText (if config.useNativeFunctionCalling then
      (boolParam config (lit "parallel_tool_calls")).toList else []) := by
    split
    · exact boolParam_text config (by decide)
    · exact membersText_nil
  have htools : MembersText (if config.useNativeFunctionCalling ∧ tools ≠ [] then
      [(lit "tools", toolsArrayJson tools)] else []) ↔
        (config.useNativeFunctionCalling = true → ∀ t ∈ tools, t.Utf8Only) := by
    have hkey : Text (lit "tools") := by decide
    by_cases hnil : tools = []
    · simp [hnil, membersText_nil]
    · by_cases huse : config.useNativeFunctionCalling = true
      · simp [hnil, huse, membersText_singleton, hkey, toolsArrayJson_utf8Only]
      · simp [huse, membersText_nil]
  rw [Json.utf8Only_obj, payloadMembers]
  change MembersText _ ↔ _
  simp only [membersText_append, hfrequency, hmax, hparallel, hpresence, hseed,
    hstream, htemperature, htop, htools, hmain, true_and, and_true]
  rw [and_comm (a := messages.Utf8Only), and_assoc]

theorem leading_text (sys : Str) :
    EntriesText (if sys = [] then [] else [{ role := Role.system, content := sys }]) ↔
      Text sys := by
  have hrole : Text Role.system := by decide
  split
  · rename_i hnil
    rw [hnil]
    exact iff_of_true (by simp [EntriesText]) .nil
  · rw [entriesText_singleton, textEntry_utf8Only]
    exact and_iff_left hrole

section

variable {lib : JsonLib} (hlib : lib.StrictUtf8)

include hlib

theorem toolText_isSome (t : ToolSchema) : (toolText lib t).isSome ↔ t.parameters.Utf8Only := by
  rw [toolText, Option.isSome_map, hlib.dumpIndented_isSome]

theorem toolText_append {t : ToolSchema} {text : Str} (h : toolText lib t = some text)
    (rest : Str) :
    Text (text ++ rest) ↔ (Text t.name ∧ Text t.description) ∧ Text rest := by
  obtain ⟨parameters, hdump, rfl⟩ := Option.map_eq_some_iff.mp h
  have hparameters := hlib.dumpIndented_text _ _ _ hdump
  have hheading : Ascii (lit "\n" ++ lit "Parameters JSON Schema:\n") := by decide
  have hsection := toolSection_text hheading (by decide) hparameters t.name t.description rest
  simpa only [List.append_assoc] using hsection

theorem systemText_text (useNative : Bool) (systemPrompt : Str) (tools : List ToolSchema) :
    (∃ sys, systemText lib useNative systemPrompt tools = some sys ∧ Text sys) ↔
      Text systemPrompt ∧ (useNative = false → ∀ t ∈ tools, t.Utf8Only) := by
  have hheading : Ascii toolsHeading := by decide +kernel
  exact promptWithTools_iff (toolText_isSome hlib) (fun t _ => toolText_append hlib) hheading
    (by decide) useNative systemPrompt tools

omit hlib in
/-- The statistics never fail, so the payload is what the loop has built. -/
theorem buildPayload_iff (config : FormatConfig) (systemPrompt : Str) (messages : List Message)
    (tools : List ToolSchema) (post : Json → Prop) :
    (∃ payload, buildPayload lib config systemPrompt messages tools = some payload ∧
        post payload) ↔
      ∃ sys, systemText lib config.useNativeFunctionCalling systemPrompt tools = some sys ∧
        ∃ entries, messages.foldlM (formatMessage lib config.useNativeFunctionCalling)
            (if sys = [] then [] else [{ role := Role.system, content := sys }]) = some entries ∧
          post (.obj (payloadMembers config (.arr (entries.map Entry.toJson)) tools)) := by
  unfold buildPayload
  cases systemText lib config.useNativeFunctionCalling systemPrompt tools with
  | none => simp
  | some sys =>
      have hleading : ∀ entry ∈ (if sys = [] then ([] : List Entry) else
          [{ role := Role.system, content := sys }]), Counted entry := by
        split
        · simp
        · exact List.forall_mem_singleton.mpr .of_text
      simp only [Option.bind_eq_bind, Option.bind_some, Option.some.injEq, exists_eq_left']
      cases hrun : messages.foldlM (formatMessage lib config.useNativeFunctionCalling)
          (if sys = [] then [] else [{ role := Role.system, content := sys }]) with
      | none => simp
      | some entries =>
          obtain ⟨stats, hstats⟩ :=
            validateToolPairing_isSome (formatMessages_counted hrun hleading)
          cases config.useNativeFunctionCalling <;> simp [hstats]

/-- The payload is built exactly when the strings of the request are UTF-8. -/
theorem format_isSome (config : FormatConfig) (systemPrompt : Str) (messages : List Message)
    (tools : List ToolSchema) :
    (format lib config systemPrompt messages tools).isSome ↔
      RequestText NativeCall lib config.toModelConfig systemPrompt messages tools := by
  have hdump : (format lib config systemPrompt messages tools).isSome ↔
      ∃ payload, buildPayload lib config systemPrompt messages tools = some payload ∧
        payload.Utf8Only := by
    unfold format
    cases buildPayload lib config systemPrompt messages tools with
    | none => simp
    | some payload => simp [hlib.dump_isSome]
  have hentries : ∀ entries : List Entry,
      (Json.arr (entries.map Entry.toJson)).Utf8Only ↔ EntriesText entries := fun entries => by
    rw [Json.utf8Only_arr, List.forall_mem_map, EntriesText]
  rw [hdump, buildPayload_iff]
  simp only [payloadMembers_utf8Only, hentries]
  have hmessages := formatMessages_text hlib config.useNativeFunctionCalling messages
  have hsystem := systemText_text hlib config.useNativeFunctionCalling systemPrompt tools
  constructor
  · rintro ⟨sys, hsys, entries, hrun, hmodel, htext, htools⟩
    obtain ⟨hleading, hall⟩ := (hmessages _).mp ⟨entries, hrun, htext⟩
    obtain ⟨hprompt, hfallback⟩ := hsystem.mp ⟨sys, hsys, (leading_text sys).mp hleading⟩
    refine ⟨hmodel, hprompt, ?_, hall⟩
    cases huse : config.useNativeFunctionCalling with
    | true => exact htools huse
    | false => exact hfallback huse
  · rintro ⟨hmodel, hprompt, htools, hall⟩
    obtain ⟨sys, hsys, htext⟩ := hsystem.mpr ⟨hprompt, fun _ => htools⟩
    obtain ⟨entries, hrun, hentries⟩ :=
      (hmessages _).mpr ⟨(leading_text sys).mpr htext, hall⟩
    exact ⟨sys, hsys, entries, hrun, hmodel, hentries, fun _ => htools⟩

end

end JiuwenCore.Models.OpenAI
