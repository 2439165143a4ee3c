import JiuwenCore.JsonText
import JiuwenCore.Models.Request

/-!
# The strings of a request

`FixStringUTF8` is applied to the contents of the messages. Every other string of a
request reaches `dump` as it is, either in the payload or in the text of a tool or a
call that becomes part of it.
-/

namespace JiuwenCore.Models

open Utf8

/-! ## Requests -/

/-- Keys and values of an object that can be dumped. -/
def MembersText (members : List (Str × Json)) : Prop :=
  ∀ entry ∈ members, Text entry.1 ∧ entry.2.Utf8Only

theorem membersText_nil : MembersText [] := by simp [MembersText]

theorem membersText_singleton {entry : Str × Json} :
    MembersText [entry] ↔ Text entry.1 ∧ entry.2.Utf8Only := List.forall_mem_singleton

theorem membersText_append {members rest : List (Str × Json)} :
    MembersText (members ++ rest) ↔ MembersText members ∧ MembersText rest :=
  List.forall_mem_append

/-- A tool whose schema can be dumped. -/
def ToolSchema.Utf8Only (t : ToolSchema) : Prop :=
  Text t.name ∧ Text t.description ∧ t.parameters.Utf8Only

/-- A call that can be written as a line of JSON. -/
def WritableCall (lib : JsonLib) (tc : ToolCall) : Prop :=
  Text tc.name ∧ ((lib.parse tc.argumentsJson).isSome ∨ Text tc.argumentsJson)

/-- The strings of a message that are not repaired; in native mode those of a call
depend on the model. -/
def MessageText (nativeCall : ToolCall → Prop) (lib : JsonLib) (useNative : Bool) (m : Message) :
    Prop :=
  if m.isAssistant then
    ∀ tc ∈ m.toolCalls, if useNative then nativeCall tc else WritableCall lib tc
  else if m.isTool then useNative = true → Text m.toolCallId
  else Text m.role

structure RequestText (nativeCall : ToolCall → Prop) (lib : JsonLib) (config : ModelConfig)
    (systemPrompt : Str) (messages : List Message) (tools : List ToolSchema) : Prop where
  modelName : Text config.modelName
  systemPrompt : Text systemPrompt
  tools : ∀ t ∈ tools, t.Utf8Only
  messages : ∀ m ∈ messages, MessageText nativeCall lib config.useNativeFunctionCalling m

/-! ## Lines of calls -/

section

variable {lib : JsonLib} (hlib : lib.StrictUtf8)

include hlib

theorem serializeCalls_text {calls : List ToolCall} {text : Str}
    (h : serializeCalls lib calls = some text) : Text text := by
  induction calls generalizing text with
  | nil =>
      cases h
      exact .nil
  | cons tc rest ih =>
      simp only [serializeCalls, Option.bind_eq_bind, Option.bind_eq_some_iff] at h
      obtain ⟨call, hcall, calls, hcalls, htext⟩ := h
      cases htext
      have hnewline : Ascii (lit "\n") := by decide
      exact ((hlib.dump_text _ _ hcall).append hnewline.text).append (ih hcalls)

theorem writableCall_iff (tc : ToolCall) :
    (lib.dump (.obj [(lit "arguments", (lib.parse tc.argumentsJson).getD (.str tc.argumentsJson)),
      (lit "name", .str tc.name)])).isSome ↔ WritableCall lib tc := by
  rw [hlib.dump_isSome, Json.utf8Only_obj]
  have harguments : Text (lit "arguments") := by decide
  have hname : Text (lit "name") := by decide
  cases hparse : lib.parse tc.argumentsJson with
  | none => simp [WritableCall, hparse, harguments, hname, and_comm]
  | some j => simp [WritableCall, hparse, harguments, hname, hlib.parse_utf8 _ _ hparse]

theorem serializeCalls_isSome (calls : List ToolCall) :
    (serializeCalls lib calls).isSome ↔ ∀ tc ∈ calls, WritableCall lib tc := by
  induction calls with
  | nil => simp [serializeCalls]
  | cons tc rest ih =>
      rw [List.forall_mem_cons, ← ih, ← writableCall_iff hlib tc, serializeCalls]
      cases hcall : lib.dump (.obj [(lit "arguments",
        (lib.parse tc.argumentsJson).getD (.str tc.argumentsJson)), (lit "name", .str tc.name)]) with
      | none => simp
      | some call => cases serializeCalls lib rest <;> simp

/-- The calls can be written behind a text exactly when each of them can. -/
theorem serializedContent_text {fixed : Str} (hfixed : Text fixed) (calls : List ToolCall) :
    (∃ lines, serializeCalls lib calls = some lines ∧
        Text ((if fixed = [] then [] else fixed ++ lit "\n") ++ lines)) ↔
      ∀ tc ∈ calls, WritableCall lib tc := by
  have hsome := serializeCalls_isSome hlib calls
  cases hserialized : serializeCalls lib calls with
  | none =>
      rw [hserialized] at hsome
      simpa using hsome
  | some lines =>
      rw [hserialized] at hsome
      have hnewline : Text (lit "\n") := by decide
      have hfront : Text (if fixed = [] then [] else fixed ++ lit "\n") := by
        split
        · exact .nil
        · exact hfixed.append hnewline
      have htext := hfront.append (serializeCalls_text hlib hserialized)
      simpa [htext] using hsome

omit hlib in
/-- The text of a tool between its headings. -/
theorem toolSection_text {heading : Str} (hheading : Ascii heading) (hne : heading ≠ [])
    {parameters : Str} (hparameters : Text parameters) (name description rest : Str) :
    Text (lit "## " ++ name ++ lit "\n" ++ description ++ heading ++ parameters ++ lit "\n\n" ++
        rest) ↔ (Text name ∧ Text description) ∧ Text rest := by
  have hmark : Ascii (lit "## ") := by decide
  have hline : Ascii (lit "\n") := by decide
  have hblank : Ascii (lit "\n\n") := by decide
  have hshape : lit "## " ++ name ++ lit "\n" ++ description ++ heading ++ parameters ++
      lit "\n\n" ++ rest = lit "## " ++ (name ++ (lit "\n" ++ (description ++ (heading ++
        (parameters ++ (lit "\n\n" ++ rest)))))) := by
    simp only [List.append_assoc]
  rw [hshape, hmark.append_iff, hline.between_iff (by decide), hheading.between_iff hne,
    hblank.between_iff (by decide)]
  simp [hparameters, and_assoc]

omit hlib in
/-- The texts of tools that stand behind each other, each with a text of its own. -/
theorem toolTexts_iff {toolText : ToolSchema → Option Str}
    (hsome : ∀ t, (toolText t).isSome ↔ t.parameters.Utf8Only)
    (htext : ∀ t text, toolText t = some text → ∀ rest,
      Text (text ++ rest) ↔ (Text t.name ∧ Text t.description) ∧ Text rest)
    (tools : List ToolSchema) :
    (∃ texts, tools.mapM toolText = some texts ∧ Text texts.flatten) ↔
      ∀ t ∈ tools, t.Utf8Only := by
  induction tools with
  | nil => simp [Text.nil]
  | cons t rest ih =>
      rw [List.forall_mem_cons, ← ih]
      cases hfirst : toolText t with
      | none =>
          have hbad : ¬ t.parameters.Utf8Only := by
            rw [← hsome, hfirst]
            exact Bool.false_ne_true
          simp [List.mapM_cons, hfirst, ToolSchema.Utf8Only, hbad]
      | some text =>
          have hgood : t.parameters.Utf8Only := by
            rw [← hsome, hfirst]
            rfl
          have hcut := htext t text hfirst
          cases hrest : rest.mapM toolText with
          | none => simp [List.mapM_cons, hfirst, hrest]
          | some texts =>
              simp [List.mapM_cons, hfirst, hrest, ToolSchema.Utf8Only, hgood, hcut, and_assoc]

omit hlib in
/-- The system prompt of a fallback request, with the texts of its tools behind a heading. -/
theorem promptWithTools_iff {toolText : ToolSchema → Option Str}
    (hsome : ∀ t, (toolText t).isSome ↔ t.parameters.Utf8Only)
    (htext : ∀ t text, toolText t = some text → ∀ rest,
      Text (text ++ rest) ↔ (Text t.name ∧ Text t.description) ∧ Text rest)
    {heading : Str} (hheading : Ascii heading) (hne : heading ≠ []) (useNative : Bool)
    (systemPrompt : Str) (tools : List ToolSchema) :
    (∃ sys, (if useNative = false ∧ tools ≠ [] then
        (if tools = [] then some [] else (tools.mapM toolText).map fun texts =>
          heading ++ texts.flatten).map (systemPrompt ++ ·)
      else some systemPrompt) = some sys ∧ Text sys) ↔
      Text systemPrompt ∧ (useNative = false → ∀ t ∈ tools, t.Utf8Only) := by
  split
  · rename_i hfallback
    rw [if_neg hfallback.2]
    simp only [hfallback.1, forall_const, ← toolTexts_iff hsome htext tools]
    cases tools.mapM toolText with
    | none => simp
    | some texts =>
        have hcut : Text (systemPrompt ++ (heading ++ texts.flatten)) ↔
            Text systemPrompt ∧ Text texts.flatten := hheading.between_iff hne
        simpa using hcut
  · rename_i hnative
    have hnone : useNative = false → ∀ t ∈ tools, t.Utf8Only := by
      intro hfalse t ht
      exact absurd ⟨hfalse, List.ne_nil_of_mem ht⟩ hnative
    simpa using fun _ => hnone

end

end JiuwenCore.Models
