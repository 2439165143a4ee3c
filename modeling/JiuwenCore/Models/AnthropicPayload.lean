import JiuwenCore.Models.AnthropicFormat

/-!
# The grammar of the Anthropic payload

What the API asks of `messages`, and the windows whose payload meets it. The
messages of a window are formatted group by group: a message outside of a group
adds at most one entry, an assistant message with tool calls and the tool messages
behind it add their entries behind those already there.
-/

namespace JiuwenCore.Models.Anthropic

open CallGroups ContextEngine

/-! ## Entries and blocks -/

def blocksOf (entry : Json) : List Json :=
  match entry.member (lit "content") with
  | some (.arr blocks) => blocks
  | _ => []

def blocksOfType (type : Str) (entry : Json) : List Json :=
  (blocksOf entry).filter fun block => block.stringMember (lit "type") = some type

def toolUses (entry : Json) : List Json := blocksOfType (lit "tool_use") entry

def toolUseIds (entry : Json) : List (Option Str) :=
  (toolUses entry).map fun block => block.stringMember (lit "id")

def toolResultIds (entry : Json) : List (Option Str) :=
  (blocksOfType (lit "tool_result") entry).map fun block =>
    block.stringMember (lit "tool_use_id")

/-- An object with one of the block types of the API. -/
def ContentBlock (block : Json) : Prop :=
  block.stringMember (lit "type") ∈
    [some (lit "text"), some (lit "tool_use"), some (lit "tool_result")]

structure EntryOk (entry : Json) : Prop where
  role : entry.stringMember (lit "role") = some Role.user ∨
    entry.stringMember (lit "role") = some Role.assistant
  content : (∃ text, entry.member (lit "content") = some (.str text)) ∨
    ∃ blocks, entry.member (lit "content") = some (.arr blocks) ∧ ∀ b ∈ blocks, ContentBlock b
  inputs : ∀ use ∈ toolUses entry, ∃ input, use.member (lit "input") = some (.obj input)

/-- `next` is a user entry with results for exactly the tool uses of `entry`. -/
def AnsweredBy (entry next : Json) : Prop :=
  next.stringMember (lit "role") = some Role.user ∧
    (toolResultIds next).Perm (toolUseIds entry)

/-- Every assistant entry with tool uses is answered by the entry behind it. -/
def ResultsFollow : List Json → Prop
  | [] => True
  | entry :: rest =>
      (entry.stringMember (lit "role") = some Role.assistant → toolUses entry ≠ [] →
        ∃ next, rest.head? = some next ∧ AnsweredBy entry next) ∧ ResultsFollow rest

def MessagesOk (useNative : Bool) (entries : List Json) : Prop :=
  (∀ entry ∈ entries, EntryOk entry) ∧ (useNative = true → ResultsFollow entries)

/-- A message the formatter has a valid entry for: one of the four roles, and if it
is an assistant message, native tool use, at least one call, and arguments that
are no JSON other than an object. -/
def Renderable (lib : JsonLib) (useNative : Bool) (m : Message) : Prop :=
  (m.role = Role.system ∨ m.role = Role.user ∨ m.role = Role.assistant ∨ m.role = Role.tool) ∧
    (m.isAssistant → useNative = true ∧ m.toolCalls ≠ [] ∧
      ∀ tc ∈ m.toolCalls, ∀ input, lib.parse tc.argumentsJson = some input → input.isObject = true)

/-- Tool messages for exactly the calls of `m`, in any order. -/
def Answered (m : Message) (answers : List Message) : Prop :=
  (answers.map (·.toolCallId)).Perm m.callIds

/-! ## Appending entries -/

theorem resultsFollow_append {entries rest : List Json}
    (h : ∀ entry, entries.getLast? = some entry → toolUses entry = []) :
    ResultsFollow (entries ++ rest) ↔ ResultsFollow entries ∧ ResultsFollow rest := by
  induction entries with
  | nil => simp [ResultsFollow]
  | cons entry entries ih =>
      cases entries with
      | nil =>
          have hnone : toolUses entry = [] := h entry rfl
          simp [ResultsFollow, hnone]
      | cons next entries =>
          have hih := ih fun e he => h e (by rw [List.getLast?_cons_cons]; exact he)
          rw [List.cons_append, ResultsFollow, hih, ResultsFollow, ResultsFollow, List.cons_append]
          simp only [List.head?_cons, ResultsFollow, and_assoc]

theorem messagesOk_append {useNative : Bool} {entries rest : List Json}
    (h : useNative = true → ∀ entry, entries.getLast? = some entry → toolUses entry = []) :
    MessagesOk useNative (entries ++ rest) ↔
      MessagesOk useNative entries ∧ MessagesOk useNative rest := by
  unfold MessagesOk
  cases useNative with
  | false => simp [or_imp, forall_and]
  | true =>
      simp only [List.mem_append, or_imp, forall_and, resultsFollow_append (h rfl), forall_const]
      exact and_and_and_comm

theorem messagesOk_singleton {useNative : Bool} {entry : Json} (h : toolUses entry = []) :
    MessagesOk useNative [entry] ↔ EntryOk entry := by
  simp [MessagesOk, ResultsFollow, h]

/-! ## The entries of the formatter -/

@[simp] theorem toJson_role (entry : Entry) :
    entry.toJson.stringMember (lit "role") = some entry.role := rfl

@[simp] theorem toJson_content (entry : Entry) :
    entry.toJson.member (lit "content") = some entry.content := rfl

@[simp] theorem blocksOf_arr (role : Str) (blocks : List Json) :
    blocksOf (Entry.toJson ⟨role, .arr blocks⟩) = blocks := rfl

theorem textEntry_ok_iff {role text : Str} :
    EntryOk (Entry.toJson ⟨role, .str text⟩) ↔ role = Role.user ∨ role = Role.assistant := by
  constructor
  · intro h
    simpa using h.role
  · intro h
    exact ⟨by simpa using h, .inl ⟨text, rfl⟩, fun use huse => absurd huse List.not_mem_nil⟩

/-- A single block is no valid content. -/
theorem objectEntry_not_ok {role : Str} {members : List (Str × Json)} :
    ¬ EntryOk (Entry.toJson ⟨role, .obj members⟩) := by
  intro h
  rcases h.content with ⟨text, htext⟩ | ⟨blocks, hblocks, _⟩
  · simp at htext
  · simp at hblocks

/-! ## A group in native mode -/

/-- The entry of an assistant message whose tool calls become blocks. -/
def usesEntry (lib : JsonLib) (m : Message) : Entry :=
  { role := Role.assistant
    content := .arr ((if fixStringUTF8 m.content = [] then []
      else [textBlock (fixStringUTF8 m.content)]) ++ m.toolCalls.map (toolUseBlock lib)) }

/-- The entry the results of a group are packed into. -/
def resultEntry (answers : List Message) : Entry :=
  { role := Role.user
    content := .arr (answers.map fun a => toolResultBlock a.toolCallId (fixStringUTF8 a.content)) }

theorem filter_blocks {α : Type} (type : Str) (block : α → Json) (items : List α) (b : Bool)
    (h : ∀ a, decide ((block a).stringMember (lit "type") = some type) = b) :
    (items.map block).filter (fun block => block.stringMember (lit "type") = some type) =
      if b then items.map block else [] := by
  cases b with
  | false =>
      rw [if_neg Bool.false_ne_true, List.filter_eq_nil_iff]
      intro j hj
      obtain ⟨a, _, rfl⟩ := List.mem_map.mp hj
      rw [h a]
      exact Bool.false_ne_true
  | true =>
      rw [if_pos rfl, List.filter_eq_self]
      intro j hj
      obtain ⟨a, _, rfl⟩ := List.mem_map.mp hj
      exact h a

theorem toolUses_usesEntry (lib : JsonLib) (m : Message) :
    toolUses (usesEntry lib m).toJson = m.toolCalls.map (toolUseBlock lib) := by
  have htext : (if fixStringUTF8 m.content = [] then []
      else [textBlock (fixStringUTF8 m.content)]).filter
        (fun block => block.stringMember (lit "type") = some (lit "tool_use")) = [] := by
    split
    · rfl
    · rfl
  have hcalls := filter_blocks (lit "tool_use") (toolUseBlock lib) m.toolCalls true fun _ => rfl
  rw [if_pos rfl] at hcalls
  rw [toolUses, blocksOfType, usesEntry, blocksOf_arr, List.filter_append, htext, hcalls,
    List.nil_append]

theorem toolUseIds_usesEntry (lib : JsonLib) (m : Message) :
    toolUseIds (usesEntry lib m).toJson = m.callIds.map some := by
  rw [toolUseIds, toolUses_usesEntry, Message.callIds, List.map_map, List.map_map]
  rfl

theorem toolUses_resultEntry (answers : List Message) :
    toolUses (resultEntry answers).toJson = [] := by
  exact filter_blocks (lit "tool_use")
    (fun a : Message => toolResultBlock a.toolCallId (fixStringUTF8 a.content)) answers false
    fun _ => rfl

theorem toolResultIds_resultEntry (answers : List Message) :
    toolResultIds (resultEntry answers).toJson = (answers.map (·.toolCallId)).map some := by
  have hresults := filter_blocks (lit "tool_result")
    (fun a : Message => toolResultBlock a.toolCallId (fixStringUTF8 a.content)) answers true
    fun _ => rfl
  rw [if_pos rfl] at hresults
  rw [toolResultIds, blocksOfType, resultEntry, blocksOf_arr, hresults, List.map_map, List.map_map]
  rfl

theorem resultEntry_ok (answers : List Message) : EntryOk (resultEntry answers).toJson where
  role := .inl rfl
  content := by
    refine .inr ⟨_, rfl, fun b hb => ?_⟩
    obtain ⟨a, _, rfl⟩ := List.mem_map.mp hb
    have htype : (toolResultBlock a.toolCallId (fixStringUTF8 a.content)).stringMember
        (lit "type") = some (lit "tool_result") := rfl
    simp [ContentBlock, htype]
  inputs := by
    rw [toolUses_resultEntry]
    exact fun use huse => absurd huse List.not_mem_nil

theorem usesEntry_content (lib : JsonLib) (m : Message) :
    ∃ blocks, (usesEntry lib m).toJson.member (lit "content") = some (.arr blocks) ∧
      ∀ b ∈ blocks, ContentBlock b := by
  refine ⟨_, rfl, fun b hb => ?_⟩
  rcases List.mem_append.mp hb with hb | hb
  · split at hb
    · exact absurd hb List.not_mem_nil
    · have htype : (textBlock (fixStringUTF8 m.content)).stringMember (lit "type") =
          some (lit "text") := rfl
      rw [List.mem_singleton.mp hb]
      simp [ContentBlock, htype]
  · obtain ⟨tc, _, rfl⟩ := List.mem_map.mp hb
    have htype : (toolUseBlock lib tc).stringMember (lit "type") = some (lit "tool_use") := rfl
    simp [ContentBlock, htype]

/-- The input of a block is an object unless the arguments are other JSON. -/
theorem input_isObject_iff (lib : JsonLib) (tc : ToolCall) :
    (∃ input, (toolUseBlock lib tc).member (lit "input") = some (.obj input)) ↔
      ∀ input, lib.parse tc.argumentsJson = some input → input.isObject = true := by
  have hmember : (toolUseBlock lib tc).member (lit "input") =
      some ((lib.parse tc.argumentsJson).getD (.obj [])) := rfl
  rw [hmember]
  cases hparse : lib.parse tc.argumentsJson with
  | none => simp
  | some input => cases input <;> simp [Json.isObject]

theorem usesEntry_ok_iff (lib : JsonLib) (m : Message) :
    EntryOk (usesEntry lib m).toJson ↔
      ∀ tc ∈ m.toolCalls, ∀ input, lib.parse tc.argumentsJson = some input →
        input.isObject = true := by
  constructor
  · intro h tc htc
    have huse : toolUseBlock lib tc ∈ toolUses (usesEntry lib m).toJson := by
      rw [toolUses_usesEntry]
      exact List.mem_map_of_mem htc
    exact (input_isObject_iff lib tc).mp (h.inputs _ huse)
  · intro h
    refine ⟨.inr rfl, .inr (usesEntry_content lib m), fun use huse => ?_⟩
    rw [toolUses_usesEntry] at huse
    obtain ⟨tc, htc, rfl⟩ := List.mem_map.mp huse
    exact (input_isObject_iff lib tc).mpr (h tc htc)

/-- The two entries of a group meet the grammar when the arguments of its calls do. -/
theorem group_ok_iff (lib : JsonLib) {m : Message} {answers : List Message}
    (hanswered : Answered m answers) :
    MessagesOk true [(usesEntry lib m).toJson, (resultEntry answers).toJson] ↔
      ∀ tc ∈ m.toolCalls, ∀ input, lib.parse tc.argumentsJson = some input →
        input.isObject = true := by
  have hids : AnsweredBy (usesEntry lib m).toJson (resultEntry answers).toJson := by
    refine ⟨rfl, ?_⟩
    rw [toolUseIds_usesEntry, toolResultIds_resultEntry]
    exact hanswered.map some
  rw [← usesEntry_ok_iff lib m]
  constructor
  · intro h
    exact h.1 _ List.mem_cons_self
  · intro h
    refine ⟨fun entry hentry => ?_, fun _ => ?_⟩
    · rcases List.mem_pair.mp hentry with rfl | rfl
      · exact h
      · exact resultEntry_ok answers
    · exact ⟨fun _ _ => ⟨_, rfl, hids⟩, fun _ hne => absurd (toolUses_resultEntry answers) hne,
        trivial⟩

/-! ## Tool messages -/

/-- A result joins the user entry that waits for it. -/
theorem appendToolResult_open {st : FormatState} {front : List Entry} {items : List Json}
    (hentries : st.entries = front ++ [⟨Role.user, .arr items⟩])
    (hawaiting : st.awaitingToolBlock = true) (toolUseId content : Str) :
    appendToolResult st toolUseId content = some
      { st with
        entries := front ++ [⟨Role.user, .arr (items ++ [toolResultBlock toolUseId content])⟩]
        awaitingToolBlock := true } := by
  rw [appendToolResult_push hawaiting hentries]
  rfl

theorem formatMessage_native_tool (lib : JsonLib) (st : FormatState) {a : Message} (h : a.isTool) :
    formatMessage lib true st a = appendToolResult st a.toolCallId (fixStringUTF8 a.content) := by
  simp [formatMessage, h]

theorem run_results_open (lib : JsonLib) {answers : List Message} (h : ∀ a ∈ answers, a.isTool)
    {st : FormatState} {front : List Entry} {items : List Json}
    (hentries : st.entries = front ++ [⟨Role.user, .arr items⟩])
    (hawaiting : st.awaitingToolBlock = true) :
    answers.foldlM (formatMessage lib true) st = some
      { st with
        entries := front ++ [⟨Role.user, .arr (items ++ answers.map fun a =>
          toolResultBlock a.toolCallId (fixStringUTF8 a.content))⟩] } := by
  induction answers generalizing st items with
  | nil => simp [← hentries]
  | cons a answers ih =>
      rw [List.foldlM_cons, formatMessage_native_tool lib st (h a List.mem_cons_self),
        appendToolResult_open hentries hawaiting]
      have hrest := fun x hx => h x (List.mem_cons_of_mem a hx)
      simp only [Option.bind_eq_bind, Option.bind_some]
      rw [ih hrest rfl rfl, hawaiting, List.map_cons, List.append_assoc]
      rfl

/-- The results of a group stand in one entry of their own. -/
theorem run_results (lib : JsonLib) {answers : List Message} (h : ∀ a ∈ answers, a.isTool)
    (hne : answers ≠ []) {st : FormatState} (hawaiting : st.awaitingToolBlock = false) :
    answers.foldlM (formatMessage lib true) st = some
      { st with entries := st.entries ++ [resultEntry answers], awaitingToolBlock := true } := by
  cases answers with
  | nil => exact absurd rfl hne
  | cons a answers =>
      have hrest := fun x hx => h x (List.mem_cons_of_mem a hx)
      rw [List.foldlM_cons, formatMessage_native_tool lib st (h a List.mem_cons_self),
        appendToolResult_first hawaiting]
      simp only [Option.bind_eq_bind, Option.bind_some]
      rw [run_results_open lib hrest rfl rfl]
      rfl

theorem formatMessage_native_opens (lib : JsonLib) (st : FormatState) {m : Message}
    (h : m.opensCalls) :
    formatMessage lib true st m = some
      { st with entries := st.entries ++ [usesEntry lib m], awaitingToolBlock := false } := by
  rcases h with ⟨hrole, hcalls⟩
  simp [formatMessage, hrole, assistantContent, hcalls, usesEntry]

theorem answered_ne_nil {m : Message} {answers : List Message} (h : m.opensCalls)
    (hanswered : Answered m answers) : answers ≠ [] := by
  rintro rfl
  have hnil : m.callIds = [] := hanswered.symm.eq_nil
  exact h.2 (List.map_eq_nil_iff.mp hnil)

/-- A group adds two entries. -/
theorem run_group (lib : JsonLib) (st : FormatState) {m : Message} {answers : List Message}
    (hopens : m.opensCalls) (htools : ∀ a ∈ answers, a.isTool) (hanswered : Answered m answers) :
    (m :: answers).foldlM (formatMessage lib true) st = some
      { st with
        entries := st.entries ++ [usesEntry lib m, resultEntry answers]
        awaitingToolBlock := true } := by
  rw [List.foldlM_cons, formatMessage_native_opens lib st hopens]
  simp only [Option.bind_eq_bind, Option.bind_some]
  rw [run_results lib htools (answered_ne_nil hopens hanswered) rfl, List.append_assoc]
  rfl

/-! ## A group in fallback mode -/

/-- An observation changes nothing in front of the user texts the group has added. -/
theorem appendObservation_front {st : FormatState} {front added : List Entry}
    (hentries : st.entries = front ++ added)
    (hback : added = [] → ∀ back, front.getLast? = some back → back.role ≠ Role.user)
    (fixed : Str) :
    ∃ added', added' ≠ [] ∧ (appendObservation st fixed).entries = front ++ added' := by
  have hpushed : ∀ entry, ∃ added', added' ≠ [] ∧ st.entries ++ [entry] = front ++ added' :=
    fun entry => ⟨added ++ [entry], by simp, by simp [hentries]⟩
  unfold appendObservation
  cases hlast : st.entries.getLast? with
  | none => exact hpushed _
  | some back =>
      simp only
      split
      · split
        · exact hpushed _
        · rename_i huser _
          have hne : added ≠ [] := by
            rintro rfl
            rw [hentries, List.append_nil] at hlast
            exact hback rfl back hlast huser
          have hdrop : st.entries.dropLast = front ++ added.dropLast := by
            rw [hentries, List.dropLast_append_of_ne_nil hne]
          rw [hdrop, List.append_assoc]
          exact ⟨_, List.append_ne_nil_of_right_ne_nil _ (List.cons_ne_nil _ _), rfl⟩
      · exact hpushed _

theorem run_observations (lib : JsonLib) {answers : List Message} (h : ∀ a ∈ answers, a.isTool)
    {st st' : FormatState} {front added : List Entry} (hentries : st.entries = front ++ added)
    (hback : added = [] → ∀ back, front.getLast? = some back → back.role ≠ Role.user)
    (hrun : answers.foldlM (formatMessage lib false) st = some st') :
    ∃ added', st'.entries = front ++ added' := by
  induction answers generalizing st added with
  | nil =>
      cases hrun
      exact ⟨added, hentries⟩
  | cons a answers ih =>
      have hstep : formatMessage lib false st a =
          some (appendObservation st (fixStringUTF8 a.content)) := by
        simp [formatMessage, h a List.mem_cons_self]
      rw [List.foldlM_cons, hstep] at hrun
      simp only [Option.bind_eq_bind, Option.bind_some] at hrun
      obtain ⟨added', hne, hadded⟩ :=
        appendObservation_front hentries hback (fixStringUTF8 a.content)
      exact ih (fun x hx => h x (List.mem_cons_of_mem a hx)) hadded
        (fun hnil => absurd hnil hne) hrun

/-- Without native tool use a group adds an entry that is not valid. -/
theorem run_group_fallback (lib : JsonLib) {st st' : FormatState} {m : Message}
    {answers : List Message} (hopens : m.opensCalls) (htools : ∀ a ∈ answers, a.isTool)
    (hrun : (m :: answers).foldlM (formatMessage lib false) st = some st') :
    ∃ text added, st'.entries = st.entries ++ ⟨Role.assistant, textBlock text⟩ :: added := by
  obtain ⟨st₁, hstep, hrest⟩ := Option.bind_eq_some_iff.mp hrun
  rcases hopens with ⟨hrole, hcalls⟩
  simp only [formatMessage, hrole, if_true, assistantContent, hcalls, Bool.false_eq_true, ne_eq,
    not_false_eq_true, and_true, if_false, Option.map_map, Option.map_eq_some_iff] at hstep
  rcases hstep with ⟨calls, _, rfl⟩
  obtain ⟨added, hadded⟩ := run_observations lib htools (List.append_nil _).symm (by simp) hrest
  exact ⟨_, added, hadded.trans (List.append_assoc _ _ _)⟩

/-! ## Messages outside of groups -/

/-- The entries of a message that neither asks for calls nor answers one. -/
def plainEntries (m : Message) : List Entry :=
  if m.isAssistant then [⟨Role.assistant, textBlock (fixStringUTF8 m.content)⟩]
  else if m.role = Role.system then []
  else [⟨m.role, .str (fixStringUTF8 m.content)⟩]

theorem formatMessage_plain (lib : JsonLib) (useNative : Bool) (st : FormatState) {m : Message}
    (hopens : ¬ m.opensCalls) (htool : ¬ m.isTool) :
    ∃ st', formatMessage lib useNative st m = some st' ∧
      st'.entries = st.entries ++ plainEntries m := by
  by_cases hassistant : m.isAssistant
  · have hcalls : m.toolCalls = [] := by
      by_contra hne
      exact hopens ⟨hassistant, hne⟩
    rw [plainEntries, if_pos hassistant]
    simp only [formatMessage, assistantContent, hassistant, hcalls, ne_eq, not_true_eq_false,
      and_false, if_true, if_false, Option.map_some]
    exact ⟨_, rfl, rfl⟩
  · rw [plainEntries, if_neg hassistant]
    simp only [formatMessage, if_neg hassistant, if_neg htool]
    by_cases hsystem : m.role = Role.system
    · rw [if_pos hsystem, if_pos hsystem, List.append_nil]
      refine ⟨_, rfl, ?_⟩
      simp [hsystem]
    · rw [if_neg hsystem, if_neg hsystem]
      refine ⟨_, rfl, ?_⟩
      split
      · rfl
      · rfl

theorem plainEntries_no_uses {m : Message} {entry : Entry} (h : entry ∈ plainEntries m) :
    toolUses entry.toJson = [] := by
  unfold plainEntries at h
  split at h
  · rw [List.mem_singleton.mp h]
    rfl
  · split at h
    · exact absurd h List.not_mem_nil
    · rw [List.mem_singleton.mp h]
      rfl

theorem plainEntries_ok_iff (lib : JsonLib) (useNative : Bool) {m : Message}
    (hopens : ¬ m.opensCalls) (htool : ¬ m.isTool) :
    MessagesOk useNative ((plainEntries m).map Entry.toJson) ↔ Renderable lib useNative m := by
  unfold plainEntries
  split
  · rename_i hassistant
    have hcalls : m.toolCalls = [] := by
      by_contra hne
      exact hopens ⟨hassistant, hne⟩
    constructor
    · intro h
      exact absurd (h.1 _ List.mem_cons_self) objectEntry_not_ok
    · intro h
      exact absurd hcalls (h.2 hassistant).2.1
  · rename_i hassistant
    split
    · rename_i hsystem
      exact ⟨fun _ => ⟨.inl hsystem, fun ha => absurd ha hassistant⟩, fun _ => by
        simp [MessagesOk, ResultsFollow]⟩
    · rename_i hsystem
      rw [List.map_singleton, messagesOk_singleton rfl, textEntry_ok_iff]
      constructor
      · rintro (huser | ha)
        · exact ⟨.inr (.inl huser), fun ha => absurd ha hassistant⟩
        · exact absurd ha hassistant
      · rintro ⟨hrole, _⟩
        rcases hrole with hsys | huser | ha | ht
        · exact absurd hsys hsystem
        · exact .inl huser
        · exact absurd ha hassistant
        · exact absurd ht htool

/-! ## The window -/

theorem renderable_tool {lib : JsonLib} {useNative : Bool} {a : Message} (h : a.isTool) :
    Renderable lib useNative a :=
  ⟨.inr (.inr (.inr h)), fun ha => absurd (ha.symm.trans h) Role.assistant_ne_tool⟩

/-- What a group adds meets the grammar exactly when its messages are renderable. -/
theorem run_group_ok (lib : JsonLib) (useNative : Bool) {st st' : FormatState} {m : Message}
    {answers : List Message} (hopens : m.opensCalls) (htools : ∀ a ∈ answers, a.isTool)
    (hanswered : Answered m answers)
    (hrun : (m :: answers).foldlM (formatMessage lib useNative) st = some st') :
    ∃ added, st'.entries = st.entries ++ added ∧
      (useNative = true → ∀ entry, (added.map Entry.toJson).getLast? = some entry →
        toolUses entry = []) ∧
      (MessagesOk useNative (added.map Entry.toJson) ↔
        ∀ x ∈ m :: answers, Renderable lib useNative x) := by
  have hanswers :
      (∀ x ∈ m :: answers, Renderable lib useNative x) ↔ Renderable lib useNative m := by
    rw [List.forall_mem_cons, and_iff_left fun a ha => renderable_tool (htools a ha)]
  rw [hanswers]
  cases useNative with
  | false =>
      obtain ⟨text, added, hadded⟩ := run_group_fallback lib hopens htools hrun
      refine ⟨_, hadded, fun h => absurd h Bool.false_ne_true, ?_⟩
      constructor
      · intro h
        exact absurd (h.1 _ List.mem_cons_self) objectEntry_not_ok
      · intro h
        exact absurd (h.2 hopens.1).1 Bool.false_ne_true
  | true =>
      rw [run_group lib st hopens htools hanswered] at hrun
      cases hrun
      refine ⟨_, rfl, fun _ entry hentry => ?_, ?_⟩
      · cases hentry
        exact toolUses_resultEntry answers
      · rw [List.map_cons, List.map_singleton, group_ok_iff lib hanswered]
        constructor
        · intro h
          exact ⟨.inr (.inr (.inl hopens.1)), fun _ => ⟨rfl, hopens.2, h⟩⟩
        · intro h
          exact (h.2 hopens.1).2.2

/-- The entries a window adds meet the grammar exactly when its messages are
renderable. -/
theorem run_window_ok (lib : JsonLib) (useNative : Bool) {messages : List Message}
    (hvalid : Grouped messageKinds Answered messages) {st st' : FormatState}
    (hrun : messages.foldlM (formatMessage lib useNative) st = some st') :
    ∃ added, st'.entries = st.entries ++ added ∧
      (MessagesOk useNative (added.map Entry.toJson) ↔
        ∀ m ∈ messages, Renderable lib useNative m) := by
  induction hvalid generalizing st with
  | nil =>
      cases hrun
      exact ⟨[], (List.append_nil _).symm, by simp [MessagesOk, ResultsFollow]⟩
  | @plain m rest hopens htool _ ih =>
      obtain ⟨st₁, hstep, hadded⟩ := formatMessage_plain lib useNative st hopens htool
      rw [List.foldlM_cons, hstep] at hrun
      obtain ⟨added, hrest, hok⟩ := ih hrun
      refine ⟨plainEntries m ++ added, by rw [hrest, hadded, List.append_assoc], ?_⟩
      have hquiet : ∀ entry, ((plainEntries m).map Entry.toJson).getLast? = some entry →
          toolUses entry = [] := by
        intro entry hentry
        obtain ⟨e, he, rfl⟩ := List.mem_map.mp (List.mem_of_getLast? hentry)
        exact plainEntries_no_uses he
      rw [List.map_append, messagesOk_append fun _ => hquiet, hok,
        plainEntries_ok_iff lib useNative hopens htool, List.forall_mem_cons]
  | @group m answers rest hopens htools hanswered _ ih =>
      rw [← List.cons_append, List.foldlM_append] at hrun
      obtain ⟨st₁, hgroup, hrest⟩ := Option.bind_eq_some_iff.mp hrun
      obtain ⟨first, hfirst, hquiet, hok₁⟩ :=
        run_group_ok lib useNative hopens htools hanswered hgroup
      obtain ⟨added, hadded, hok₂⟩ := ih hrest
      refine ⟨first ++ added, by rw [hadded, hfirst, List.append_assoc], ?_⟩
      rw [List.map_append, messagesOk_append hquiet, hok₁, hok₂, ← List.cons_append,
        List.forall_mem_append]

/-- Native payloads of valid windows are always built. -/
theorem run_window_native (lib : JsonLib) {messages : List Message}
    (hvalid : Grouped messageKinds Answered messages) (st : FormatState) :
    ∃ st', messages.foldlM (formatMessage lib true) st = some st' := by
  induction hvalid generalizing st with
  | nil => exact ⟨st, rfl⟩
  | plain hopens htool _ ih =>
      obtain ⟨st₁, hstep, _⟩ := formatMessage_plain lib true st hopens htool
      rw [List.foldlM_cons, hstep]
      exact ih st₁
  | group hopens htools hanswered _ ih =>
      rw [← List.cons_append, List.foldlM_append, run_group lib st hopens htools hanswered]
      exact ih _

theorem buildPayload_native (lib : JsonLib) {config : ModelConfig}
    (hnative : config.useNativeFunctionCalling = true) (systemPrompt : Str)
    {messages : List Message} (hvalid : Grouped messageKinds Answered messages)
    (tools : List ToolSchema) :
    ∃ payload, buildPayload lib config systemPrompt messages tools = some payload := by
  obtain ⟨st, hrun⟩ := run_window_native lib hvalid { system := systemPrompt }
  have hsys : systemText lib true systemPrompt tools = some systemPrompt := by simp [systemText]
  unfold buildPayload
  rw [hnative, hsys, Option.bind_eq_bind, Option.bind_some, hrun]
  exact ⟨_, rfl⟩

/-- `messages` of a payload holds what the loop has built. -/
theorem buildPayload_messages {lib : JsonLib} {config : ModelConfig} {systemPrompt : Str}
    {messages : List Message} {tools : List ToolSchema} {payload : Json}
    (h : buildPayload lib config systemPrompt messages tools = some payload) :
    ∃ sys st, messages.foldlM (formatMessage lib config.useNativeFunctionCalling)
        { system := sys } = some st ∧
      payload.member (lit "messages") = some (.arr (st.entries.map Entry.toJson)) := by
  obtain ⟨sys, _, hbuild⟩ := Option.bind_eq_some_iff.mp h
  obtain ⟨st, hrun, hst⟩ := Option.bind_eq_some_iff.mp hbuild
  cases hst
  exact ⟨sys, st, hrun, rfl⟩

/-- The entries of `messages` in a payload built for a valid window meet the grammar
of the API exactly when every message of the window is renderable. -/
theorem payload_ok_iff (lib : JsonLib) (config : ModelConfig) (systemPrompt : Str)
    (messages : List Message) (tools : List ToolSchema) (payload : Json)
    (hvalid : Grouped messageKinds Answered messages)
    (hpayload : buildPayload lib config systemPrompt messages tools = some payload) :
    ∃ entries, payload.member (lit "messages") = some (.arr entries) ∧
      (MessagesOk config.useNativeFunctionCalling entries ↔
        ∀ m ∈ messages, Renderable lib config.useNativeFunctionCalling m) := by
  obtain ⟨sys, st, hrun, hmessages⟩ := buildPayload_messages hpayload
  obtain ⟨added, hadded, hok⟩ := run_window_ok lib config.useNativeFunctionCalling hvalid hrun
  rw [List.nil_append] at hadded
  rw [← hadded] at hok
  exact ⟨_, hmessages, hok⟩

/-- A conversation with a round of two tool calls and a final answer. -/
def weatherWindow : List Message :=
  [{ role := Role.user, content := lit "Find weather and time" },
    { role := Role.assistant
      toolCalls := [⟨lit "toolu_a", lit "weather", lit "\x7b\"city\":\"sf\"\x7d"⟩,
        ⟨lit "toolu_b", lit "now", lit "\x7b\x7d"⟩] },
    { role := Role.tool, content := lit "22C sunny", toolCallId := lit "toolu_a" },
    { role := Role.tool, content := lit "2026-06-04", toolCallId := lit "toolu_b" },
    { role := Role.assistant, content := lit "SF is 22C" }]

/-- A library that knows the two argument texts. -/
def weatherLib : JsonLib where
  parse := fun s =>
    if s = lit "\x7b\"city\":\"sf\"\x7d" then some (.obj [(lit "city", .str (lit "sf"))])
    else if s = lit "\x7b\x7d" then some (.obj [])
    else none
  dump := fun _ => none
  dumpIndented := fun _ _ => none
  floatToInt := fun _ => 0

theorem weatherWindow_valid : Grouped messageKinds Answered weatherWindow := by
  have hanswer : Grouped messageKinds Answered
      [{ role := Role.assistant, content := lit "SF is 22C" }] :=
    .plain (show ¬ Message.opensCalls _ by decide) (show ¬ Message.isTool _ by decide) .nil
  have hround : Answered
      { role := Role.assistant
        toolCalls := [⟨lit "toolu_a", lit "weather", lit "\x7b\"city\":\"sf\"\x7d"⟩,
          ⟨lit "toolu_b", lit "now", lit "\x7b\x7d"⟩] }
      [{ role := Role.tool, content := lit "22C sunny", toolCallId := lit "toolu_a" },
        { role := Role.tool, content := lit "2026-06-04", toolCallId := lit "toolu_b" }] :=
    List.Perm.refl _
  have hgroup := Grouped.group (K := messageKinds) (show Message.opensCalls _ by decide)
    (show ∀ a ∈ _, Message.isTool a by decide) hround hanswer
  exact .plain (show ¬ Message.opensCalls _ by decide) (show ¬ Message.isTool _ by decide) hgroup

theorem payload_ok_weather :
    ∃ payload entries, buildPayload weatherLib {} [] weatherWindow [] = some payload ∧
      payload.member (lit "messages") = some (.arr entries) ∧
      (MessagesOk true entries ↔ ∀ m ∈ weatherWindow, Renderable weatherLib true m) := by
  obtain ⟨payload, hpayload⟩ := @buildPayload_native weatherLib {} rfl [] _ weatherWindow_valid []
  obtain ⟨entries, hentries, hok⟩ :=
    payload_ok_iff weatherLib {} [] weatherWindow [] payload weatherWindow_valid hpayload
  exact ⟨payload, entries, hpayload, hentries, hok⟩

/-- The content of the final answer is an object. -/
theorem payload_not_ok :
    ¬ ∀ (lib : JsonLib) (config : ModelConfig) (systemPrompt : Str) (messages : List Message)
      (tools : List ToolSchema) (payload : Json), Grouped messageKinds Answered messages →
        buildPayload lib config systemPrompt messages tools = some payload →
        ∃ entries, payload.member (lit "messages") = some (.arr entries) ∧
          MessagesOk config.useNativeFunctionCalling entries := by
  intro h
  obtain ⟨payload, hpayload⟩ := @buildPayload_native weatherLib {} rfl [] _ weatherWindow_valid []
  obtain ⟨entries, hentries, hok⟩ :=
    h weatherLib {} [] weatherWindow [] payload weatherWindow_valid hpayload
  obtain ⟨sys, st, hrun, hmessages⟩ := buildPayload_messages hpayload
  obtain ⟨added, hadded, hiff⟩ := run_window_ok weatherLib true weatherWindow_valid hrun
  rw [List.nil_append] at hadded
  rw [hmessages] at hentries
  cases hentries
  rw [hadded] at hok
  have hanswer : { role := Role.assistant, content := lit "SF is 22C" } ∈ weatherWindow :=
    List.mem_of_getLast? rfl
  exact ((hiff.mp hok _ hanswer).2 rfl).2.1 rfl

end JiuwenCore.Models.Anthropic
