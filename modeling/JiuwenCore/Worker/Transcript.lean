import JiuwenCore.Utils.ToolSuffix
import JiuwenCore.Models.FallbackCalls
import JiuwenCore.Worker.ReactLoop

/-!
# The transcript of a reply with calls

Without native tool use the loop reads the calls of a reply from its text, and persists the
text with the calls. `Format` then writes the text and behind it the calls once more, so
the model is shown every call twice, unless the parser takes what is written for no call.
-/

namespace JiuwenCore.Worker

open ContextEngine Models

variable {σ : Type}

/-! ## The message -/

/-- The assistant message the loop persists of a response with calls. -/
def assistantMessage (config : LoopConfig) (counter : Nat) (resp : ModelResponse) : Message :=
  { role := Role.assistant, content := resp.content,
    toolCalls := (toolCallsOf config counter resp).1 }

theorem handleResponse_persists {env : LoopEnv σ} {resp : ModelResponse} {st : LoopState σ}
    (h : (toolCallsOf env.config st.fallbackCounter resp).1 ≠ []) (it : Iteration) :
    handleResponse env it resp st =
      (persist env it.now it.persistThrows
        (assistantMessage env.config st.fallbackCounter resp)
        { st with fallbackCounter := (toolCallsOf env.config st.fallbackCounter resp).2 } >>=
      runTools env it.tools 0 (toolCallsOf env.config st.fallbackCounter resp).1) := by
  rw [handleResponse]
  simp only [if_neg h]
  rfl

/-- The name and the arguments of a call. -/
def callOf (tc : ToolCall) : ParsedToolCall := ⟨tc.name, tc.argumentsJson⟩

theorem fillMissingIds_calls (sessionId : Str) (counter : Nat) (calls : List ToolCall) :
    (fillMissingIds sessionId counter calls).1.map callOf = calls.map callOf := by
  induction calls generalizing counter with
  | nil => rfl
  | cons tc rest ih =>
      rw [fillMissingIds]
      split
      · simp only [List.map_cons, ih]
        rfl
      · simp only [List.map_cons, ih]

theorem adoptParsed_calls (sessionId : Str) (counter : Nat) {parsed : List ParsedToolCall}
    (h : ∀ p ∈ parsed, p.arguments ≠ []) :
    (adoptParsed sessionId counter parsed).1.map callOf = parsed := by
  induction parsed generalizing counter with
  | nil => rfl
  | cons p rest ih =>
      rw [List.forall_mem_cons] at h
      rw [adoptParsed]
      simp only [List.map_cons, ih _ h.2, callOf, if_neg h.1]

/-- The calls of the message are those of the reply. -/
theorem assistantMessage_calls {config : LoopConfig}
    (hconfig : config.useNativeFunctionCalling = false) {resp : ModelResponse}
    (hresp : resp.toolCalls = []) (hutf8 : Utf8.Text resp.content) (counter : Nat) :
    (assistantMessage config counter resp).toolCalls.map callOf =
      extractAllToolCalls resp.content := by
  have hcalls := extractFrom_text hutf8 (List.nil_append resp.content).symm 0
  rw [assistantMessage, toolCallsOf]
  simp only [hconfig, hresp, and_self, if_true]
  rw [fillMissingIds_calls]
  exact adoptParsed_calls _ _ fun p hp => (hcalls p hp).2

/-! ## The text -/

/-- A call as `Format` writes it. -/
def reprinted (lib : JsonLib) (floatText : UInt64 → Str) (p : ParsedToolCall) : Str :=
  (Json.callObject ((lib.parse p.arguments).getD (.str p.arguments)) p.name).print floatText

/-- What `Format` writes behind some reply. -/
def appended (lib : JsonLib) (floatText : UInt64 → Str) (reply : Str) : Str :=
  lit "\n" ++ (extractAllToolCalls reply).flatMap fun p => reprinted lib floatText p ++ lit "\n"

/-- The message is shown by `OpenAIModel::Format` with some calls. -/
def OpenAIShows (lib : JsonLib) (entries : List OpenAI.Entry) (m : Message)
    (calls : List ParsedToolCall) : Prop :=
  ∃ text, OpenAI.formatMessage lib false entries m =
      some (entries ++ [{ role := Role.assistant, content := text }]) ∧
    extractAllToolCalls text = calls

/-- The message is shown by `AnthropicModel::Format` with some calls. -/
def AnthropicShows (lib : JsonLib) (st : Anthropic.FormatState) (m : Message)
    (calls : List ParsedToolCall) : Prop :=
  ∃ text, Anthropic.formatMessage lib false st m = some
      { st with
        entries := st.entries ++ [{ role := Role.assistant, content := Anthropic.textBlock text }]
        awaitingToolBlock := false } ∧
    extractAllToolCalls text = calls

/-- What stands behind the reply adds no call to it: no call that is written is one that the
parser takes for a call. Where the reply has an open brace that is closed behind it, the
object so made, and what is left behind it, hold the calls that the reply has behind the
brace. -/
def AddsNothing (lib : JsonLib) (floatText : UInt64 → Str) (reply : Str) : Prop :=
  match firstClosed (appended lib floatText reply) 0 reply with
  | none => ∀ p ∈ extractAllToolCalls reply, parseToolCall (reprinted lib floatText p) = none
  | some t =>
      let text := t ++ appended lib floatText reply
      let object := extractJson text
      (parseToolCall object).toList ++ extractAllToolCalls (text.drop object.length) =
        extractAllToolCalls (t.drop 1)

section

variable {lib : JsonLib} {floatText : UInt64 → Str} (hlib : lib.Compact floatText)

include hlib

/-- The calls of a UTF-8 reply are written. -/
theorem serializeCalls_reply {calls : List ToolCall} {reply : Str} (hutf8 : Utf8.Text reply)
    (hcalls : calls.map callOf = extractAllToolCalls reply) :
    ∃ text, serializeCalls lib calls = some text ∧ lit "\n" ++ text = appended lib floatText reply := by
  have hwritable : ∀ tc ∈ calls, WritableCall lib tc := by
    intro tc htc
    have hmem : callOf tc ∈ extractAllToolCalls reply := hcalls ▸ List.mem_map_of_mem htc
    have htext := extractFrom_text hutf8 (List.nil_append reply).symm 0 _ hmem
    exact ⟨htext.1.1, Or.inr htext.1.2⟩
  obtain ⟨text, htext⟩ := Option.isSome_iff_exists.mp
    ((serializeCalls_isSome hlib.toStrictUtf8 calls).mpr hwritable)
  refine ⟨text, htext, ?_⟩
  rw [appended, ← hcalls, List.flatMap_map, serializeCalls_print hlib htext]
  rfl

/-- What is read of a reply with its calls written behind it. -/
theorem extractAllToolCalls_appended {calls : List ToolCall} {reply : Str}
    (hutf8 : Utf8.Text reply) (hcalls : calls.map callOf = extractAllToolCalls reply) :
    extractAllToolCalls (reply ++ appended lib floatText reply) = extractAllToolCalls reply ↔
      AddsNothing lib floatText reply := by
  obtain ⟨text, htext, happended⟩ := serializeCalls_reply hlib hutf8 hcalls
  have hread : extractAllToolCalls (appended lib floatText reply) =
      (extractAllToolCalls reply).filterMap fun p => parseToolCall (reprinted lib floatText p) := by
    rw [← happended, extractAllToolCalls, extractFrom_newline, ← extractAllToolCalls,
      serializeCalls_read hlib htext, ← hcalls, List.filterMap_map]
    rfl
  unfold AddsNothing
  cases hclosed : firstClosed (appended lib floatText reply) 0 reply with
  | none =>
      have happend := extractFrom_append (Nat.zero_le _) hclosed
      rw [extractAllToolCalls, happend, ← extractAllToolCalls, ← extractAllToolCalls, hread,
        List.append_right_eq_self, List.filterMap_eq_nil_iff]
  | some t =>
      obtain ⟨before, hreply, hboth⟩ := extractFrom_append_of_closed hclosed
      rw [extractAllToolCalls, extractAllToolCalls, hreply, hboth, List.append_cancel_left_eq,
        extractFrom_front (firstClosed_some hclosed)]
      rfl

end

/-! ## Both models -/

theorem openai_contentEntry (lib : JsonLib) (entries : List OpenAI.Entry) {m : Message}
    (hrole : m.isAssistant) (hutf8 : Utf8.Text m.content) (hcontent : m.content ≠ [])
    (hcalls : m.toolCalls ≠ []) :
    OpenAI.formatMessage lib false entries m =
      (serializeCalls lib m.toolCalls).map fun calls =>
        entries ++ [{ role := Role.assistant, content := m.content ++ lit "\n" ++ calls }] := by
  rw [OpenAI.formatMessage, if_pos hrole, fixStringUTF8_of_text hutf8, OpenAI.assistantEntry,
    if_neg (by simp), if_pos hcalls, Option.map_map]
  simp only [if_neg hcontent]
  rfl

theorem anthropic_contentEntry (lib : JsonLib) (st : Anthropic.FormatState) {m : Message}
    (hrole : m.isAssistant) (hutf8 : Utf8.Text m.content) (hcontent : m.content ≠ [])
    (hcalls : m.toolCalls ≠ []) :
    Anthropic.formatMessage lib false st m =
      (serializeCalls lib m.toolCalls).map fun calls =>
        { st with
          entries := st.entries ++
            [{ role := Role.assistant,
               content := Anthropic.textBlock (m.content ++ lit "\n" ++ calls) }]
          awaitingToolBlock := false } := by
  rw [Anthropic.formatMessage, if_pos hrole, fixStringUTF8_of_text hutf8,
    Anthropic.assistantContent, if_neg (by simp), if_pos hcalls, Option.map_map]
  simp only [if_neg hcontent]
  rfl

/-- In the transcript of a reply with calls, either model is shown the calls of the reply
exactly when what `Format` appends adds nothing. -/
theorem transcript_iff {env : LoopEnv σ} {floatText : UInt64 → Str}
    (hlib : env.lib.Compact floatText) (hconfig : env.config.useNativeFunctionCalling = false)
    {resp : ModelResponse} (hresp : resp.toolCalls = []) (hutf8 : Utf8.Text resp.content)
    (hcalls : extractAllToolCalls resp.content ≠ []) (it : Iteration) (st : LoopState σ)
    (entries : List OpenAI.Entry) (formatted : Anthropic.FormatState) :
    handleResponse env it resp st =
      (persist env it.now it.persistThrows
        (assistantMessage env.config st.fallbackCounter resp)
        { st with fallbackCounter := (toolCallsOf env.config st.fallbackCounter resp).2 } >>=
      runTools env it.tools 0 (toolCallsOf env.config st.fallbackCounter resp).1) ∧
    (OpenAIShows env.lib entries (assistantMessage env.config st.fallbackCounter resp)
        (extractAllToolCalls resp.content) ↔ AddsNothing env.lib floatText resp.content) ∧
    (AnthropicShows env.lib formatted (assistantMessage env.config st.fallbackCounter resp)
        (extractAllToolCalls resp.content) ↔ AddsNothing env.lib floatText resp.content) := by
  have hmap := assistantMessage_calls hconfig hresp hutf8 st.fallbackCounter
  have hmade : (assistantMessage env.config st.fallbackCounter resp).toolCalls ≠ [] := by
    intro h
    rw [h] at hmap
    exact hcalls hmap.symm
  have hcontent : resp.content ≠ [] := by
    intro h
    rw [h] at hcalls
    exact hcalls rfl
  obtain ⟨calls, hwritten, happended⟩ := serializeCalls_reply hlib hutf8 hmap
  have htext : resp.content ++ lit "\n" ++ calls =
      resp.content ++ appended env.lib floatText resp.content := by
    rw [← happended, List.append_assoc]
  have hread := extractAllToolCalls_appended hlib hutf8 hmap
  refine ⟨handleResponse_persists hmade it, ?_, ?_⟩
  · rw [← hread, OpenAIShows, openai_contentEntry env.lib entries rfl hutf8 hcontent hmade, hwritten,
      ← htext]
    simp [assistantMessage]
  · rw [← hread, AnthropicShows, anthropic_contentEntry env.lib formatted rfl hutf8 hcontent hmade,
      hwritten, ← htext]
    simp [assistantMessage, Anthropic.textBlock]

/-- A session without native tool use. -/
def promptOnly (lib : JsonLib) : LoopEnv Unit where
  config := { useNativeFunctionCalling := false }
  lib := lib
  storage := { saveMessage := fun _ _ => (), loadHistory := fun _ => ([], true) }
  callback := fun _ _ => false

/-- A reply whose call has an empty argument `name`, which is read when it is written. -/
def namedReply : Str := lit "\x7b\"name\":\"a\",\"arguments\":\x7b\"name\":\"\"\x7d\x7d"

def namedLib : JsonLib :=
  oneTextLib (lit "\x7b\"name\":\"\"\x7d") (.obj [(lit "name", .str [])])

theorem transcript_iff_named :
    OpenAIShows namedLib [] (assistantMessage (promptOnly namedLib).config 0
        { content := namedReply }) (extractAllToolCalls namedReply) ∧
      AnthropicShows namedLib {} (assistantMessage (promptOnly namedLib).config 0
        { content := namedReply }) (extractAllToolCalls namedReply) := by
  have hutf8 : Utf8.Text namedReply := by decide +kernel
  have hadds : AddsNothing namedLib (fun _ => lit "0.0") namedReply := by
    have hclosed : firstClosed (appended namedLib (fun _ => lit "0.0") namedReply) 0 namedReply =
        none := by decide +kernel
    rw [AddsNothing, hclosed]
    decide +kernel
  have hconfig : (promptOnly namedLib).config.useNativeFunctionCalling = false := rfl
  have hresp : ({ content := namedReply } : ModelResponse).toolCalls = [] := rfl
  have hshown := transcript_iff (oneTextLib_compact (by decide) (by decide)) hconfig hresp hutf8
    (by decide +kernel) { model := { response := none }, tools := fun _ => { observation := none } }
    { engine := ⟨[], ()⟩ } [] {}
  exact ⟨hshown.2.1.mpr hadds, hshown.2.2.mpr hadds⟩

/-- A reply that is a single call is shown with the call twice. -/
def weatherReply : Str := lit "\x7b\"name\":\"weather\",\"arguments\":\x7b\x7d\x7d"

def weatherLib : JsonLib := oneTextLib (lit "\x7b\x7d") (.obj [])

theorem call_shown_twice :
    extractAllToolCalls weatherReply = [⟨lit "weather", lit "\x7b\x7d"⟩] ∧
      ¬ OpenAIShows weatherLib [] (assistantMessage (promptOnly weatherLib).config 0
        { content := weatherReply }) (extractAllToolCalls weatherReply) ∧
      ¬ AnthropicShows weatherLib {} (assistantMessage (promptOnly weatherLib).config 0
        { content := weatherReply }) (extractAllToolCalls weatherReply) := by
  have hutf8 : Utf8.Text weatherReply := by decide +kernel
  have hwritten : serializeCalls weatherLib (assistantMessage (promptOnly weatherLib).config 0
      { content := weatherReply }).toolCalls =
        some (lit "\x7b\"arguments\":\x7b\x7d,\"name\":\"weather\"\x7d\n") := by
    decide +kernel
  refine ⟨by decide +kernel, ?_, ?_⟩
  · rintro ⟨text, htext, hread⟩
    rw [openai_contentEntry weatherLib [] rfl hutf8 (by decide) (by decide +kernel), hwritten]
      at htext
    simp only [Option.map_some, List.nil_append, Option.some.injEq, List.cons.injEq,
      OpenAI.Entry.mk.injEq, and_true, true_and] at htext
    rw [← htext] at hread
    exact absurd (congrArg List.length hread) (by decide +kernel)
  · rintro ⟨text, htext, hread⟩
    rw [anthropic_contentEntry weatherLib {} rfl hutf8 (by decide) (by decide +kernel), hwritten]
      at htext
    simp only [Anthropic.textBlock, List.nil_append, Option.map_some, Option.some.injEq,
      Anthropic.FormatState.mk.injEq, List.cons.injEq, Anthropic.Entry.mk.injEq, Json.obj.injEq,
      Prod.mk.injEq, Json.str.injEq, true_and, and_true] at htext
    rw [← htext] at hread
    exact absurd (congrArg List.length hread) (by decide +kernel)

end JiuwenCore.Worker
