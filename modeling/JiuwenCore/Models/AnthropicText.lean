import JiuwenCore.Models.AnthropicFormat
import JiuwenCore.Models.OpenAIText

/-!
# Which Anthropic requests can be sent

Besides the strings of the request the position of the tool messages matters: a
message of an unknown role is appended behind an open block of tool results without
closing it, and the next result is then pushed onto its text.
-/

namespace JiuwenCore.Models.Anthropic

open Utf8

/-! ## The block of tool results -/

/-- What the next tool result meets: no open block, an open one at the end of the
entries, or one that another entry stands behind. -/
inductive BlockState where
  | closed
  | taking
  | broken
  deriving DecidableEq, Repr

def BlockState.next (block : BlockState) (m : Message) : BlockState :=
  if m.role = Role.assistant ∨ m.role = Role.user then .closed
  else if m.role = Role.tool then .taking
  else if m.role = Role.system ∨ block = .closed then block
  else .broken

/-- No tool message meets a broken block. -/
def ToolsFit : BlockState → List Message → Prop
  | _, [] => True
  | block, m :: rest => (m.isTool → block ≠ .broken) ∧ ToolsFit (block.next m) rest

def FormatState.block (st : FormatState) : BlockState :=
  if st.awaitingToolBlock then
    match st.entries.getLast? with
    | some ⟨_, .arr _⟩ | some ⟨_, .null⟩ => .taking
    | _ => .broken
  else .closed

/-- The flag is set only behind an entry. -/
def FormatState.Sound (st : FormatState) : Prop := st.awaitingToolBlock = true → st.entries ≠ []

/-! ## The strings of the entries -/

def NativeCall (tc : ToolCall) : Prop := Text tc.id ∧ Text tc.name

structure StateText (st : FormatState) : Prop where
  entries : ∀ entry ∈ st.entries, entry.toJson.Utf8Only
  system : Text st.system

theorem Entry.utf8Only_iff (entry : Entry) :
    entry.toJson.Utf8Only ↔ entry.content.Utf8Only ∧ Text entry.role := by
  have hkeys : Text (lit "content") ∧ Text (lit "role") := by decide
  simp [Entry.toJson, Json.utf8Only_obj, hkeys]

theorem textBlock_utf8Only (text : Str) : (textBlock text).Utf8Only ↔ Text text := by
  have hkeys : Text (lit "text") ∧ Text (lit "type") := by decide
  simp [textBlock, Json.utf8Only_obj, hkeys]

theorem toolResultBlock_utf8Only (toolUseId content : Str) :
    (toolResultBlock toolUseId content).Utf8Only ↔ Text content ∧ Text toolUseId := by
  have hkeys : Text (lit "content") ∧ Text (lit "tool_use_id") ∧ Text (lit "type") ∧
      Text (lit "tool_result") := by decide
  simp [toolResultBlock, Json.utf8Only_obj, hkeys]

theorem role_assistant_text : Text Role.assistant := by decide

theorem role_user_text : Text Role.user := by decide

section

variable {lib : JsonLib} (hlib : lib.StrictUtf8)

include hlib

theorem toolUseBlock_utf8Only (tc : ToolCall) : (toolUseBlock lib tc).Utf8Only ↔ NativeCall tc := by
  have hkeys : Text (lit "id") ∧ Text (lit "input") ∧ Text (lit "name") ∧ Text (lit "type") ∧
      Text (lit "tool_use") := by decide
  have hinput : ((lib.parse tc.argumentsJson).getD (.obj [])).Utf8Only := by
    cases hparse : lib.parse tc.argumentsJson with
    | none => exact Json.utf8Only_obj.mpr (by simp)
    | some input => exact hlib.parse_utf8 _ _ hparse
  simp [toolUseBlock, Json.utf8Only_obj, hkeys, hinput, NativeCall]

theorem assistantContent_text (useNative : Bool) {fixed : Str} (hfixed : Text fixed)
    (toolCalls : List ToolCall) :
    (∃ content, assistantContent lib useNative fixed toolCalls = some content ∧
        content.Utf8Only) ↔
      ∀ tc ∈ toolCalls, if useNative then NativeCall tc else WritableCall lib tc := by
  by_cases hcalls : toolCalls = []
  · subst hcalls
    simp [assistantContent, textBlock_utf8Only, hfixed]
  · cases useNative with
    | true =>
        have htext : ∀ block ∈ (if fixed = [] then [] else [textBlock fixed]),
            block.Utf8Only := by
          split
          · simp
          · exact List.forall_mem_singleton.mpr ((textBlock_utf8Only fixed).mpr hfixed)
        rw [assistantContent, if_pos ⟨rfl, hcalls⟩]
        simp only [Option.some.injEq, exists_eq_left', Json.utf8Only_arr, List.forall_mem_append,
          List.forall_mem_map, toolUseBlock_utf8Only hlib, if_true]
        exact and_iff_right htext
    | false =>
        have hwritten := serializedContent_text hlib hfixed toolCalls
        simpa [assistantContent, hcalls, textBlock_utf8Only] using hwritten

end

theorem pushBack_utf8Only {j item j' : Json} (h : j.pushBack item = some j') :
    j'.Utf8Only ↔ j.Utf8Only ∧ item.Utf8Only := by
  cases j with
  | arr items =>
      cases h
      rw [Json.utf8Only_arr, Json.utf8Only_arr, List.forall_mem_append, List.forall_mem_singleton]
  | null =>
      cases h
      have hnull : Json.null.Utf8Only := by decide
      simp [Json.utf8Only_arr, hnull]
  | _ => cases h

/-! ## One tool result -/

theorem block_eq_closed {st : FormatState} :
    st.block = .closed ↔ st.awaitingToolBlock = false := by
  unfold FormatState.block
  cases hawaiting : st.awaitingToolBlock with
  | false => simp
  | true =>
      rw [if_pos rfl]
      split <;> simp

theorem block_of_last {st : FormatState} (h : st.awaitingToolBlock = true)
    {front : List Entry} {back : Entry} (hentries : st.entries = front ++ [back]) (item : Json) :
    st.block ≠ .broken ↔ ∃ content, back.content.pushBack item = some content := by
  rcases back with ⟨role, content⟩
  rw [FormatState.block, if_pos h, hentries, List.getLast?_concat]
  cases content <;> simp [Json.pushBack]

theorem stateText_append {st : FormatState} {front : List Entry} {entry : Entry}
    {awaiting : Bool} :
    StateText { st with entries := front ++ [entry], awaitingToolBlock := awaiting } ↔
      StateText { st with entries := front } ∧ entry.toJson.Utf8Only := by
  constructor
  · intro h
    obtain ⟨hentries, hentry⟩ := List.forall_mem_append.mp h.entries
    exact ⟨⟨hentries, h.system⟩, hentry entry (List.mem_singleton_self entry)⟩
  · intro h
    refine ⟨?_, h.1.system⟩
    exact List.forall_mem_append.mpr ⟨h.1.entries, List.forall_mem_singleton.mpr h.2⟩

theorem stateText_last {st : FormatState} {front : List Entry} {back : Entry}
    (hentries : st.entries = front ++ [back]) :
    StateText st ↔ StateText { st with entries := front } ∧ back.toJson.Utf8Only := by
  rcases st with ⟨entries, awaiting, system⟩
  obtain rfl : entries = front ++ [back] := hentries
  exact @stateText_append ⟨[], awaiting, system⟩ front back awaiting

theorem appendToolResult_text {st : FormatState} (hsound : st.Sound) {content : Str}
    (hcontent : Text content) (toolUseId : Str) :
    (∃ st', appendToolResult st toolUseId content = some st' ∧ StateText st') ↔
      StateText st ∧ Text toolUseId ∧ st.block ≠ .broken := by
  have hresult : (toolResultBlock toolUseId content).Utf8Only ↔ Text toolUseId := by
    rw [toolResultBlock_utf8Only]
    exact and_iff_right hcontent
  cases hawaiting : st.awaitingToolBlock with
  | false =>
      have hclosed : st.block ≠ .broken := by
        rw [FormatState.block, if_neg (by simp [hawaiting])]
        decide
      rw [appendToolResult_first hawaiting]
      simp only [Option.some.injEq, exists_eq_left', stateText_append, Entry.utf8Only_iff,
        Json.utf8Only_arr, List.forall_mem_singleton, hresult]
      simp [hclosed, role_user_text]
  | true =>
      obtain ⟨front, back, hentries⟩ := List.eq_nil_or_concat' st.entries
        |>.resolve_left (hsound hawaiting)
      rw [appendToolResult_push hawaiting hentries, stateText_last hentries,
        block_of_last hawaiting hentries (toolResultBlock toolUseId content)]
      cases hpush : back.content.pushBack (toolResultBlock toolUseId content) with
      | none => simp
      | some pushed =>
          have hpushed := pushBack_utf8Only hpush
          simp only [Option.map_some, Option.some.injEq, exists_eq_left', stateText_append,
            Entry.utf8Only_iff, hpushed, hresult, exists_eq', and_true]
          tauto

theorem appendToolResult_block {st st' : FormatState} {toolUseId content : Str}
    (h : appendToolResult st toolUseId content = some st') :
    st'.Sound ∧ st'.block = .taking := by
  simp only [appendToolResult] at h
  generalize (if st.entries = [] ∨ st.awaitingToolBlock = false then
    startToolResultBlock st.entries else st.entries) = entries at h
  cases hlast : entries.getLast? with
  | none =>
    rw [hlast] at h
    cases h
  | some back =>
    rw [hlast] at h
    obtain ⟨pushed, hpush, rfl⟩ := Option.map_eq_some_iff.mp h
    refine ⟨fun _ => by simp, ?_⟩
    rw [FormatState.block, if_pos rfl, List.getLast?_concat]
    cases hcontent : back.content with
    | arr items =>
        rw [hcontent] at hpush
        cases hpush
        rfl
    | null =>
        rw [hcontent] at hpush
        cases hpush
        rfl
    | _ =>
        rw [hcontent] at hpush
        cases hpush

/-! ## One observation -/

/-- In fallback mode the content of a user entry is a text. -/
def FormatState.Plain (st : FormatState) : Prop :=
  ∀ entry ∈ st.entries, entry.role = Role.user → ∃ text, entry.content = .str text

theorem plain_append {st : FormatState} {front : List Entry} {entry : Entry} {awaiting : Bool}
    (hfront : FormatState.Plain { st with entries := front })
    (hentry : entry.role = Role.user → ∃ text, entry.content = .str text) :
    FormatState.Plain
      { st with entries := front ++ [entry], awaitingToolBlock := awaiting } :=
  List.forall_mem_append.mpr ⟨hfront, List.forall_mem_singleton.mpr hentry⟩

theorem observation_text {fixed : Str} (hfixed : Text fixed) :
    Text (lit "Observation:\n" ++ fixed) := by
  have hheading : Ascii (lit "Observation:\n") := by decide
  exact hheading.text.append hfixed

theorem appendObservation_plain {st : FormatState} (hplain : st.Plain) (fixed : Str) :
    (appendObservation st fixed).Plain := by
  have hpushed : ∀ awaiting text, FormatState.Plain
      { st with
        entries := st.entries ++ [{ role := Role.user, content := .str text }]
        awaitingToolBlock := awaiting } :=
    fun _ text => plain_append hplain fun _ => ⟨text, rfl⟩
  unfold appendObservation
  split
  · exact hpushed _ _
  · rename_i back hlast
    split
    · split
      · exact hpushed _ _
      · refine plain_append ?_ fun _ => ⟨_, rfl⟩
        exact fun entry hentry => hplain entry (List.mem_of_mem_dropLast hentry)
    · exact hpushed _ _

theorem appendObservation_text {st : FormatState} (hplain : st.Plain) {fixed : Str}
    (hfixed : Text fixed) : StateText (appendObservation st fixed) ↔ StateText st := by
  have hobservation := observation_text hfixed
  have hpushed : ∀ awaiting, StateText
      { st with
        entries := st.entries ++
          [{ role := Role.user, content := .str (lit "Observation:\n" ++ fixed) }]
        awaitingToolBlock := awaiting } ↔ StateText st := by
    intro awaiting
    rw [stateText_append, Entry.utf8Only_iff, Json.utf8Only_str]
    exact and_iff_left ⟨hobservation, role_user_text⟩
  unfold appendObservation
  split
  · exact hpushed _
  · rename_i back hlast
    split
    · rename_i huser
      split
      · exact hpushed _
      · -- the observation is joined to the text of the last entry
        obtain ⟨front, hentries⟩ := List.getLast?_eq_some_iff.mp hlast
        have hmem : back ∈ st.entries := List.mem_of_getLast? hlast
        obtain ⟨prev, hprev⟩ := hplain back hmem huser
        have hblank : Ascii (lit "\n\n") := by decide
        have hjoined : Text (if prev = [] then lit "Observation:\n" ++ fixed
            else prev ++ lit "\n\n" ++ (lit "Observation:\n" ++ fixed)) ↔ Text prev := by
          split
          · rename_i hnil
            rw [hnil]
            exact iff_of_true hobservation .nil
          · rw [List.append_assoc, hblank.between_iff (by decide)]
            exact and_iff_left hobservation
        rw [stateText_last hentries, Entry.utf8Only_iff, hprev, Json.utf8Only_str, ← hjoined]
        simp only [hentries, List.dropLast_concat, Json.getString, Option.getD_some]
        rw [stateText_append, Entry.utf8Only_iff, Json.utf8Only_str]
        exact .rfl
    · exact hpushed _

/-! ## One message -/

/-- What the steps of a mode rest on. -/
def FormatState.Ready (useNative : Bool) (st : FormatState) : Prop :=
  if useNative then st.Sound else st.Plain

section

variable {lib : JsonLib} (hlib : lib.StrictUtf8)

include hlib

theorem formatAssistant_text (useNative : Bool) (st : FormatState) {fixed : Str}
    (hfixed : Text fixed) (toolCalls : List ToolCall) :
    (∃ st', ((assistantContent lib useNative fixed toolCalls).map fun content =>
        { st with
          entries := st.entries ++ [{ role := Role.assistant, content := content }]
          awaitingToolBlock := false }) = some st' ∧ StateText st') ↔
      StateText st ∧
        ∀ tc ∈ toolCalls, if useNative then NativeCall tc else WritableCall lib tc := by
  rw [← assistantContent_text hlib useNative hfixed toolCalls]
  cases assistantContent lib useNative fixed toolCalls with
  | none => simp
  | some content =>
      simp only [Option.map_some, Option.some.injEq, exists_eq_left', stateText_append,
        Entry.utf8Only_iff, role_assistant_text, and_true]

theorem formatMessage_text (useNative : Bool) {st : FormatState} (hready : st.Ready useNative)
    (m : Message) :
    (∃ st', formatMessage lib useNative st m = some st' ∧ StateText st') ↔
      StateText st ∧ MessageText NativeCall lib useNative m ∧
        (useNative = true → m.isTool → st.block ≠ .broken) := by
  have hfixed := fixStringUTF8_text m.content
  by_cases hassistant : m.role = Role.assistant
  · have htool : ¬ m.isTool := by
      rw [Message.isTool, hassistant]
      decide
    rw [formatMessage, if_pos hassistant, formatAssistant_text hlib useNative st hfixed]
    simp [MessageText, hassistant, htool]
  by_cases htool : m.role = Role.tool
  · have hmessage : MessageText NativeCall lib useNative m ↔
        (useNative = true → Text m.toolCallId) := by
      rw [MessageText, if_neg hassistant, if_pos htool]
    have hmet : m.isTool → st.block ≠ .broken ↔ st.block ≠ .broken := forall_prop_of_true htool
    rw [formatMessage, if_neg hassistant, if_pos htool, hmessage, hmet]
    cases useNative with
    | true =>
        rw [if_pos rfl, appendToolResult_text hready hfixed]
        simp
    | false =>
        simp only [Bool.false_eq_true, if_false, Option.some.injEq, exists_eq_left',
          appendObservation_text (show st.Plain from hready) hfixed]
        simp
  · have hmessage : MessageText NativeCall lib useNative m ↔ Text m.role := by
      simp [MessageText, hassistant, htool]
    have hflag : StateText (if m.role = Role.user ∧ st.awaitingToolBlock then
        { st with awaitingToolBlock := false } else st) ↔ StateText st := by
      split
      · exact ⟨fun h => ⟨h.entries, h.system⟩, fun h => ⟨h.entries, h.system⟩⟩
      · exact .rfl
    rw [formatMessage, if_neg hassistant, if_neg htool, hmessage, ← hflag]
    generalize (if m.role = Role.user ∧ st.awaitingToolBlock then
      { st with awaitingToolBlock := false } else st) = ready
    by_cases hsystem : m.role = Role.system
    · have hrole : Text m.role := by
        rw [hsystem]
        decide
      have hblank : Ascii (lit "\n\n") := by decide
      have hjoined : Text (ready.system ++ lit "\n\n" ++ fixStringUTF8 m.content) ↔
          Text ready.system := by
        rw [List.append_assoc, hblank.between_iff (by decide)]
        exact and_iff_left hfixed
      have hstate : StateText
          { ready with system := ready.system ++ lit "\n\n" ++ fixStringUTF8 m.content } ↔
            StateText ready :=
        ⟨fun h => ⟨h.entries, hjoined.mp h.system⟩, fun h => ⟨h.entries, hjoined.mpr h.system⟩⟩
      simp only [if_pos hsystem, Option.some.injEq, exists_eq_left', hstate, hrole, htool,
        false_imp_iff, implies_true, and_true]
    · simp only [hsystem, if_false, Option.some.injEq, exists_eq_left', stateText_append,
        Entry.utf8Only_iff, Json.utf8Only_str, hfixed, true_and, htool, false_imp_iff,
        implies_true, and_true]

omit hlib in
theorem formatMessage_block {st st' : FormatState} {m : Message}
    (h : formatMessage lib true st m = some st') (hsound : st.Sound) :
    st'.Sound ∧ st'.block = st.block.next m := by
  unfold formatMessage at h
  unfold BlockState.next
  by_cases hassistant : m.role = Role.assistant
  · rw [if_pos hassistant] at h
    obtain ⟨content, _, rfl⟩ := Option.map_eq_some_iff.mp h
    rw [if_pos (Or.inl hassistant)]
    exact ⟨fun hawaiting => absurd hawaiting Bool.false_ne_true, rfl⟩
  by_cases htool : m.role = Role.tool
  · rw [if_neg hassistant, if_pos htool, if_pos rfl] at h
    have hopen : ¬ (m.role = Role.assistant ∨ m.role = Role.user) := by
      rw [htool]
      decide
    rw [if_neg hopen, if_pos htool]
    exact appendToolResult_block h
  rw [if_neg hassistant, if_neg htool] at h
  by_cases huser : m.role = Role.user
  · have hsystem : ¬ m.role = Role.system := by
      rw [huser]
      decide
    rw [if_pos (Or.inr huser)]
    simp only [hsystem, if_false, Option.some.injEq] at h
    subst h
    have hclosed : (if m.role = Role.user ∧ st.awaitingToolBlock then
        { st with awaitingToolBlock := false } else st).awaitingToolBlock = false := by
      by_cases hawaiting : st.awaitingToolBlock = true <;> simp [huser, hawaiting]
    refine ⟨fun hawaiting => ?_, ?_⟩
    · exact absurd (hclosed.symm.trans hawaiting) Bool.false_ne_true
    · rw [FormatState.block, if_neg]
      exact fun hawaiting => Bool.false_ne_true (hclosed.symm.trans hawaiting)
  · have hopen : ¬ (m.role = Role.assistant ∨ m.role = Role.user) :=
      not_or.mpr ⟨hassistant, huser⟩
    rw [if_neg hopen, if_neg htool]
    simp only [huser, false_and, if_false] at h
    by_cases hsystem : m.role = Role.system
    · rw [if_pos hsystem] at h
      cases h
      rw [if_pos (Or.inl hsystem)]
      exact ⟨hsound, rfl⟩
    · rw [if_neg hsystem] at h
      cases h
      refine ⟨fun _ => by simp, ?_⟩
      cases hawaiting : st.awaitingToolBlock with
      | false =>
          have hclosed := block_eq_closed.mpr hawaiting
          rw [if_pos (Or.inr hclosed), hclosed, block_eq_closed]
      | true =>
          have hne : ¬ (m.role = Role.system ∨ st.block = .closed) := by
            rw [block_eq_closed, hawaiting]
            simp [hsystem]
          -- the flag stays set behind a text
          rw [if_neg hne, FormatState.block, if_pos rfl, List.getLast?_concat]

omit hlib in
theorem formatMessage_plainUsers {st st' : FormatState} {m : Message}
    (h : formatMessage lib false st m = some st') (hplain : st.Plain) : st'.Plain := by
  unfold formatMessage at h
  by_cases hassistant : m.role = Role.assistant
  · rw [if_pos hassistant] at h
    obtain ⟨content, _, rfl⟩ := Option.map_eq_some_iff.mp h
    have hrole : Role.assistant ≠ Role.user := by decide
    exact plain_append hplain fun huser => absurd huser hrole
  by_cases htool : m.role = Role.tool
  · rw [if_neg hassistant, if_pos htool, if_neg Bool.false_ne_true] at h
    cases h
    exact appendObservation_plain hplain _
  rw [if_neg hassistant, if_neg htool] at h
  have hflag : (if m.role = Role.user ∧ st.awaitingToolBlock then
      { st with awaitingToolBlock := false } else st).Plain := by
    split <;> exact hplain
  by_cases hsystem : m.role = Role.system
  · rw [if_pos hsystem] at h
    cases h
    exact hflag
  · rw [if_neg hsystem] at h
    cases h
    exact plain_append hflag fun _ => ⟨_, rfl⟩

omit hlib in
theorem formatMessage_ready {useNative : Bool} {st st' : FormatState} {m : Message}
    (h : formatMessage lib useNative st m = some st') (hready : st.Ready useNative) :
    st'.Ready useNative := by
  cases useNative with
  | true => exact (formatMessage_block h hready).1
  | false => exact formatMessage_plainUsers h hready

theorem formatMessages_text (useNative : Bool) (messages : List Message) {st : FormatState}
    (hready : st.Ready useNative) :
    (∃ st', messages.foldlM (formatMessage lib useNative) st = some st' ∧ StateText st') ↔
      StateText st ∧ (∀ m ∈ messages, MessageText NativeCall lib useNative m) ∧
        (useNative = true → ToolsFit st.block messages) := by
  induction messages generalizing st with
  | nil => simp [ToolsFit]
  | cons m rest ih =>
      have hstep := formatMessage_text hlib useNative hready m
      rw [List.foldlM_cons, List.forall_mem_cons]
      cases hfirst : formatMessage lib useNative st m with
      | none =>
          rw [hfirst] at hstep
          refine iff_of_false (by simp) ?_
          intro h
          obtain ⟨_, hnone, _⟩ := hstep.mpr ⟨h.1, h.2.1.1, fun huse => (h.2.2 huse).1⟩
          cases hnone
      | some st₁ =>
          rw [hfirst] at hstep
          simp only [Option.some.injEq, exists_eq_left'] at hstep
          have hrest := ih (formatMessage_ready hfirst hready)
          simp only [Option.bind_eq_bind, Option.bind_some, hrest, hstep]
          have hblock : useNative = true → st₁.block = st.block.next m := by
            intro huse
            subst huse
            exact (formatMessage_block hfirst hready).2
          have hfit : (useNative = true → ToolsFit st.block (m :: rest)) ↔
              (useNative = true → m.isTool → st.block ≠ .broken) ∧
                (useNative = true → ToolsFit st₁.block rest) := by
            rw [← imp_and]
            refine imp_congr_right fun huse => ?_
            rw [hblock huse, ToolsFit]
          rw [hfit, and_assoc, and_and_and_comm]

/-! ## The payload -/

theorem toolText_isSome (t : ToolSchema) : (toolText lib t).isSome ↔ t.parameters.Utf8Only := by
  rw [toolText, Option.isSome_map, hlib.dumpIndented_isSome]

theorem toolText_append {t : ToolSchema} {text : Str} (h : toolText lib t = some text)
    (rest : Str) :
    Text (text ++ rest) ↔ (Text t.name ∧ Text t.description) ∧ Text rest := by
  obtain ⟨parameters, hdump, rfl⟩ := Option.map_eq_some_iff.mp h
  have hparameters := hlib.dumpIndented_text _ _ _ hdump
  have hheading : Ascii (lit "\nParameters:\n") := by decide
  exact toolSection_text hheading (by decide) hparameters t.name t.description rest

theorem systemText_text (useNative : Bool) (systemPrompt : Str) (tools : List ToolSchema) :
    (∃ sys, systemText lib useNative systemPrompt tools = some sys ∧ Text sys) ↔
      Text systemPrompt ∧ (useNative = false → ∀ t ∈ tools, t.Utf8Only) := by
  have hheading : Ascii (lit "\n\n# Available tools\n" ++
      lit "When calling a tool, output a JSON object exactly:\n" ++
      lit "  \x7b\"name\":\"<tool>\",\"arguments\":\x7b...\x7d\x7d" ++
      lit "\nDo NOT wrap in code fences.\n\n") := by decide +kernel
  exact promptWithTools_iff (toolText_isSome hlib) (fun t _ => toolText_append hlib) hheading
    (by decide) useNative systemPrompt tools

omit hlib in
theorem toolsMembers_text (useNative : Bool) (tools : List ToolSchema) :
    MembersText (if useNative ∧ tools ≠ [] then [(lit "tools", anthropicToolsArray tools)]
        else []) ↔ (useNative = true → ∀ t ∈ tools, t.Utf8Only) := by
  have hkeys : Text (lit "tools") ∧ Text (lit "description") ∧ Text (lit "input_schema") ∧
      Text (lit "name") := by decide
  have hone : ∀ t : ToolSchema, (Json.obj [(lit "description", .str t.description),
      (lit "input_schema", t.parameters), (lit "name", .str t.name)]).Utf8Only ↔
        t.Utf8Only := by
    intro t
    simp only [Json.utf8Only_obj, List.forall_mem_cons, List.not_mem_nil, false_imp_iff,
      implies_true, and_true, Json.utf8Only_str, hkeys, true_and, ToolSchema.Utf8Only]
    tauto
  by_cases hnil : tools = []
  · simp [hnil, membersText_nil]
  · cases useNative with
    | true =>
        simp [hnil, membersText_singleton, hkeys, anthropicToolsArray, Json.utf8Only_arr, hone]
    | false => simp [membersText_nil]

/-- The payload is built exactly when the strings of the request are UTF-8 and, in
native mode, the tool messages meet a block that can take them. -/
theorem format_isSome (config : ModelConfig) (systemPrompt : Str) (messages : List Message)
    (tools : List ToolSchema) :
    (format lib config systemPrompt messages tools).isSome ↔
      RequestText NativeCall lib config systemPrompt messages tools ∧
        (config.useNativeFunctionCalling = true → ToolsFit .closed messages) := by
  have hkeys : Text (lit "max_tokens") ∧ Text (lit "messages") ∧ Text (lit "model") ∧
      Text (lit "stream") ∧ Text (lit "system") := by decide
  have hpayload : (format lib config systemPrompt messages tools).isSome ↔
      ∃ sys, systemText lib config.useNativeFunctionCalling systemPrompt tools = some sys ∧
        ∃ st, messages.foldlM (formatMessage lib config.useNativeFunctionCalling)
            { system := sys } = some st ∧ StateText st ∧ Text config.modelName ∧
          (config.useNativeFunctionCalling = true → ∀ t ∈ tools, t.Utf8Only) := by
    unfold format buildPayload
    cases systemText lib config.useNativeFunctionCalling systemPrompt tools with
    | none => simp
    | some sys =>
        simp only [Option.bind_eq_bind, Option.bind_some, Option.some.injEq, exists_eq_left']
        cases messages.foldlM (formatMessage lib config.useNativeFunctionCalling)
            { system := sys } with
        | none => simp
        | some st =>
            have hentries : (Json.arr (st.entries.map Entry.toJson)).Utf8Only ∧ Text st.system ↔
                StateText st := by
              rw [Json.utf8Only_arr, List.forall_mem_map]
              exact ⟨fun h => ⟨h.1, h.2⟩, fun h => ⟨h.entries, h.system⟩⟩
            simp only [Option.bind_some, hlib.dump_isSome, Option.some.injEq, exists_eq_left']
            rw [Json.utf8Only_obj]
            change MembersText _ ↔ _
            rw [membersText_append, toolsMembers_text, ← hentries]
            simp only [MembersText, List.forall_mem_cons, List.not_mem_nil, false_imp_iff,
              implies_true, and_true, hkeys, true_and, Json.utf8Only_int, Json.utf8Only_str,
              Json.utf8Only_bool]
            tauto
  have hready : ∀ sys, FormatState.Ready config.useNativeFunctionCalling { system := sys } := by
    intro sys
    cases config.useNativeFunctionCalling with
    | true => exact fun hawaiting => absurd hawaiting Bool.false_ne_true
    | false => exact fun entry hentry => absurd hentry List.not_mem_nil
  have hempty : ∀ sys, StateText { system := sys } ↔ Text sys := fun sys =>
    ⟨fun h => h.system, fun h => ⟨fun entry hentry => absurd hentry List.not_mem_nil, h⟩⟩
  have hmessages := fun sys =>
    formatMessages_text hlib config.useNativeFunctionCalling messages (hready sys)
  have hsystem := systemText_text hlib config.useNativeFunctionCalling systemPrompt tools
  rw [hpayload]
  constructor
  · rintro ⟨sys, hsys, st, hrun, htext, hmodel, htools⟩
    obtain ⟨hsysText, hall, hfit⟩ := (hmessages sys).mp ⟨st, hrun, htext⟩
    obtain ⟨hprompt, hfallback⟩ := hsystem.mp ⟨sys, hsys, (hempty sys).mp hsysText⟩
    refine ⟨⟨hmodel, hprompt, ?_, hall⟩, hfit⟩
    cases huse : config.useNativeFunctionCalling with
    | true => exact htools huse
    | false => exact hfallback huse
  · rintro ⟨⟨hmodel, hprompt, htools, hall⟩, hfit⟩
    obtain ⟨sys, hsys, hsysText⟩ := hsystem.mpr ⟨hprompt, fun _ => htools⟩
    obtain ⟨st, hrun, htext⟩ := (hmessages sys).mpr ⟨(hempty sys).mpr hsysText, hall, hfit⟩
    exact ⟨sys, hsys, st, hrun, htext, hmodel, fun _ => htools⟩

end

end JiuwenCore.Models.Anthropic

namespace JiuwenCore.Models

/-! ## Both models -/

/-- When a request can be sent: the strings that `FixStringUTF8` does not repair are
UTF-8, and for the Anthropic model no message of an unknown role stands between tool
results. -/
theorem formats_iff {lib : JsonLib} (hlib : lib.StrictUtf8) (config : OpenAI.FormatConfig)
    (systemPrompt : Str) (messages : List Message) (tools : List ToolSchema) :
    ((OpenAI.format lib config systemPrompt messages tools).isSome ↔
        RequestText OpenAI.NativeCall lib config.toModelConfig systemPrompt messages tools) ∧
      ((Anthropic.format lib config.toModelConfig systemPrompt messages tools).isSome ↔
        RequestText Anthropic.NativeCall lib config.toModelConfig systemPrompt messages tools ∧
          (config.useNativeFunctionCalling = true → Anthropic.ToolsFit .closed messages)) :=
  ⟨OpenAI.format_isSome hlib config systemPrompt messages tools,
    Anthropic.format_isSome hlib config.toModelConfig systemPrompt messages tools⟩

/-- A library that parses the empty object. -/
def emptyObjectLib : JsonLib := oneTextLib (lit "\x7b\x7d") (.obj [])

theorem emptyObjectLib_strict : emptyObjectLib.StrictUtf8 := oneTextLib_strict (by decide)

/-- A turn that called `t`, under a call id. -/
def turnCalling (id : Str) : List Message :=
  [{ role := Role.user, content := lit "go" },
    { role := Role.assistant, toolCalls := [⟨id, lit "t", lit "\x7b\x7d"⟩] },
    { role := Role.tool, content := lit "done", toolCallId := id }]

theorem turnCalling_text {nativeCall : ToolCall → Prop} {id : Str} (hid : Utf8.Text id)
    (hcall : nativeCall ⟨id, lit "t", lit "\x7b\x7d"⟩) :
    ∀ m ∈ turnCalling id, MessageText nativeCall emptyObjectLib true m := by
  have huser : Role.user ≠ Role.assistant ∧ Role.user ≠ Role.tool ∧ Utf8.Text Role.user := by
    decide
  have htool : Role.tool ≠ Role.assistant := by decide
  refine List.forall_mem_cons.mpr ⟨?_, List.forall_mem_cons.mpr ⟨?_, ?_⟩⟩
  · rw [MessageText, if_neg huser.1, if_neg huser.2.1]
    exact huser.2.2
  · rw [MessageText, if_pos rfl]
    exact List.forall_mem_singleton.mpr hcall
  · refine List.forall_mem_singleton.mpr ?_
    rw [MessageText, if_neg htool, if_pos rfl]
    exact fun _ => hid

theorem formats_iff_oneCall :
    (OpenAI.format emptyObjectLib {} (lit "p") (turnCalling (lit "a")) []).isSome ∧
      (Anthropic.format emptyObjectLib {} (lit "p") (turnCalling (lit "a")) []).isSome := by
  have hboth := formats_iff emptyObjectLib_strict {} (lit "p") (turnCalling (lit "a")) []
  have hstrings : Utf8.Text (lit "a") ∧ Utf8.Text (lit "t") ∧ Utf8.Text (lit "\x7b\x7d") := by
    decide
  have hopenai : ∀ m ∈ turnCalling (lit "a"),
      MessageText OpenAI.NativeCall emptyObjectLib true m :=
    turnCalling_text hstrings.1 hstrings
  have hanthropic : ∀ m ∈ turnCalling (lit "a"),
      MessageText Anthropic.NativeCall emptyObjectLib true m :=
    turnCalling_text hstrings.1 ⟨hstrings.1, hstrings.2.1⟩
  have hfit : Anthropic.ToolsFit .closed (turnCalling (lit "a")) := by
    simp only [turnCalling, Anthropic.ToolsFit]
    decide
  exact ⟨hboth.1.mpr ⟨by decide, by decide, by simp, hopenai⟩,
    hboth.2.mpr ⟨⟨by decide, by decide, by simp, hanthropic⟩, fun _ => hfit⟩⟩

/-- One stray byte in the id of a stored call, and neither model formats the turn. -/
theorem formats_refuse_callId :
    ¬ ∀ lib : JsonLib, lib.StrictUtf8 → ∀ (config : OpenAI.FormatConfig) (systemPrompt : Str)
      (messages : List Message) (tools : List ToolSchema),
      (OpenAI.format lib config systemPrompt messages tools).isSome ∧
        (Anthropic.format lib config.toModelConfig systemPrompt messages tools).isSome := by
  intro h
  have hsome := (h emptyObjectLib emptyObjectLib_strict {} [] (turnCalling [0xFF]) []).1
  have hnone : OpenAI.format emptyObjectLib {} [] (turnCalling [0xFF]) [] = none := by
    decide +kernel
  rw [hnone] at hsome
  cases hsome

end JiuwenCore.Models
