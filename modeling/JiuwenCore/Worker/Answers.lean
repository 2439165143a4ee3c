import JiuwenCore.Lib.Ends
import JiuwenCore.Worker.ReactLoop

/-!
# The answers to the tool calls

What the turns of a session hand to `AddMessage`, and what of it is kept. Behind
each assistant message with tool calls stand the tool messages of the calls that
were executed to their end, in order: all of them, unless an exception ends the
turn. A tool message is kept when its content is not empty.
-/

namespace JiuwenCore.Worker

open CallGroups ContextEngine Models

variable {σ : Type}

/-! ## The specification of the parts -/

/-- `st'` comes from `st` by handing over `part` and keeping its valid messages. -/
def Added (part : List Message) (st st' : LoopState σ) : Prop :=
  st'.handed = st.handed ++ part ∧
    st'.engine.memoryBuffer = st.engine.memoryBuffer ++ part.filter isValidMessage

theorem Added.refl (st : LoopState σ) : Added [] st st := by simp [Added]

theorem Added.trans {part part' : List Message} {st st₁ st₂ : LoopState σ}
    (h : Added part st st₁) (h' : Added part' st₁ st₂) : Added (part ++ part') st st₂ := by
  rcases h with ⟨hhanded, hbuffer⟩
  rcases h' with ⟨hhanded', hbuffer'⟩
  exact ⟨by rw [hhanded', hhanded, List.append_assoc],
    by rw [hbuffer', hbuffer, List.filter_append, List.append_assoc]⟩

theorem say_ends (env : LoopEnv σ) (text : Str) (st : LoopState σ) :
    Ends (say env text st) (Added [] st) fun e => Added [] st e.1 ∧ e.2 = .thrown := by
  unfold say
  simp only
  split
  · exact ⟨by simp [Added], rfl⟩
  · simp [Added]

theorem persist_ends (env : LoopEnv σ) (now : Str) (throws : Bool) (m : Message)
    (st : LoopState σ) :
    Ends (persist env now throws m st) (Added [stamp now m] st)
      fun e => Added [stamp now m] st e.1 ∧ e.2 = .thrown := by
  have hadded := addMessage_buffer env.storage now m st.engine
  unfold persist
  simp only
  split
  · exact ⟨⟨rfl, hadded⟩, rfl⟩
  · exact ⟨rfl, hadded⟩

theorem leave_ends {α : Type} (env : LoopEnv σ) (text answer : Str) (st : LoopState σ)
    (post : α → Prop) : Ends (leave env text answer st) post fun e => Added [] st e.1 :=
  (say_ends env text st).mono (fun _ h => h) (fun _ h => h.1) |>.bind fun _ h => h

theorem toolMessage_isTool (tc : ToolCall) (observation : Str) (payload : PayloadWrite) :
    (toolMessage tc observation payload).isTool := by
  cases payload with
  | written result =>
      unfold toolMessage
      simp only
      split <;> rfl
  | noRuntime => rfl
  | thrown => rfl

theorem toolMessage_toolCallId (tc : ToolCall) (observation : Str) (payload : PayloadWrite) :
    (toolMessage tc observation payload).toolCallId = tc.id := by
  cases payload with
  | written result =>
      unfold toolMessage
      simp only
      split <;> rfl
  | noRuntime => rfl
  | thrown => rfl

theorem runTool_ends (env : LoopEnv σ) (tc : ToolCall) (run : ToolRun) (st : LoopState σ) :
    Ends (runTool env tc run st)
      (fun r => Added [] st r.1 ∧ r.2.isTool ∧ r.2.toolCallId = tc.id)
      fun e => Added [] st e.1 ∧ e.2 = .thrown := by
  unfold runTool
  split
  · exact ⟨.refl st, rfl⟩
  · refine (say_ends env _ st).bind fun st₁ h₁ => ?_
    split
    · exact ⟨h₁, rfl⟩
    · rename_i observation _
      have hsaid : Added [] st { st₁ with delivered := st₁.delivered ++ run.streamed } := h₁
      have hresponse := say_ends env
        (lit "\n[TOOL_RESPONSE " ++ tc.id ++ lit "] " ++ observation ++ lit "\n")
        { st₁ with delivered := st₁.delivered ++ run.streamed }
      refine (hresponse.mono (fun _ h => hsaid.trans h) fun _ h => ⟨hsaid.trans h.1, h.2⟩).bind
        fun st₂ h₂ => ?_
      split
      · exact ⟨h₂, rfl⟩
      · exact ⟨h₂, toolMessage_isTool tc _ _, toolMessage_toolCallId tc _ _⟩

/-- The calls of a round are answered in order, up to the first that is not executed
to its end. -/
theorem runTools_ends (env : LoopEnv σ) (tools : Nat → ToolRun) (k : Nat) (calls : List ToolCall)
    (st : LoopState σ) :
    Ends (runTools env tools k calls st)
      (fun st' => ∃ answers, Added answers st st' ∧ (∀ a ∈ answers, a.isTool) ∧
        answers.map (·.toolCallId) = calls.map (·.id))
      fun e => e.2 = .thrown ∧ ∃ answers, Added answers st e.1 ∧ (∀ a ∈ answers, a.isTool) ∧
        answers.map (·.toolCallId) <+: calls.map (·.id) := by
  induction calls generalizing k st with
  | nil => exact ⟨[], .refl st, by simp, rfl⟩
  | cons tc calls ih =>
      rw [runTools]
      have hnone : ∀ st' : LoopState σ, Added [] st st' → ∃ answers, Added answers st st' ∧
          (∀ a ∈ answers, a.isTool) ∧
            answers.map (·.toolCallId) <+: (tc :: calls).map (·.id) :=
        fun st' h => ⟨[], h, by simp, List.nil_prefix⟩
      have htool := (runTool_ends env tc (tools k) st).mono (fun _ h => h)
        fun e h => And.intro h.2 (hnone e.1 h.1)
      refine htool.bind fun r hr => ?_
      rcases r with ⟨st₁, tool⟩
      obtain ⟨h₁, htool, hid⟩ : Added [] st st₁ ∧ tool.isTool ∧ tool.toolCallId = tc.id := hr
      have hfirst : (stamp (tools k).now tool).isTool := (stamp_isTool _ _).mpr htool
      have hpersist := (persist_ends env (tools k).now (tools k).persistThrows tool st₁).mono
        (fun _ h => h₁.trans h) fun e h => And.intro h.2 (h₁.trans h.1)
      have hkept := hpersist.mono (fun _ h => h) fun e h => And.intro h.1 <|
        show ∃ answers, Added answers st e.1 ∧ (∀ a ∈ answers, a.isTool) ∧
            answers.map (·.toolCallId) <+: (tc :: calls).map (·.id) from
          ⟨_, h.2, List.forall_mem_singleton.mpr hfirst, by simp [hid]⟩
      refine hkept.bind fun st₂ h₂ => ?_
      refine (ih (k + 1) st₂).mono ?_ ?_
      · intro st₃ hend
        rcases hend with ⟨answers, h₃, htools, hids⟩
        exact ⟨_, h₂.trans h₃, List.forall_mem_cons.mpr ⟨hfirst, htools⟩, by simp [hid, hids]⟩
      · intro e hend
        rcases hend with ⟨hthrown, answers, h₃, htools, hids⟩
        exact ⟨hthrown, _, h₂.trans h₃, List.forall_mem_cons.mpr ⟨hfirst, htools⟩,
          by simpa [hid] using hids⟩

/-! ## Ids -/

theorem fillMissingIds_ne_nil (sessionId : Str) (counter : Nat) (calls : List ToolCall) :
    ∀ tc ∈ (fillMissingIds sessionId counter calls).1, tc.id ≠ [] := by
  induction calls generalizing counter with
  | nil => simp [fillMissingIds]
  | cons tc calls ih =>
      rw [fillMissingIds]
      split
      · intro x hx
        rcases List.mem_cons.mp hx with rfl | hx
        · exact callId_ne_nil _ _
        · exact ih _ x hx
      · rename_i hid
        intro x hx
        rcases List.mem_cons.mp hx with rfl | hx
        · exact hid
        · exact ih _ x hx

theorem toolCallsOf_ne_nil (config : LoopConfig) (counter : Nat) (resp : ModelResponse) :
    ∀ tc ∈ (toolCallsOf config counter resp).1, tc.id ≠ [] := by
  unfold toolCallsOf
  split
  exact fillMissingIds_ne_nil _ _ _

/-! ## Iterations and turns -/

/-- A tool message for each call, in order; every call has an id. -/
def AnsweredInOrder (m : Message) (answers : List Message) : Prop :=
  answers.map (·.toolCallId) = m.callIds ∧ ∀ id ∈ m.callIds, id ≠ []

/-- What a turn hands over: rounds whose calls are all answered, and if an exception
ends it, possibly a last round in which only the first calls are. -/
def TurnPart (exit : Option Exit) (part : List Message) : Prop :=
  ∃ done, Grouped messageKinds AnsweredInOrder done ∧
    (part = done ∨ exit = some .thrown ∧ ∃ m answers, part = done ++ m :: answers ∧
      m.opensCalls ∧ (∀ a ∈ answers, a.isTool) ∧
      answers.map (·.toolCallId) <+: m.callIds ∧ ∀ id ∈ m.callIds, id ≠ [])

theorem TurnPart.of_grouped {exit : Option Exit} {part : List Message}
    (h : Grouped messageKinds AnsweredInOrder part) : TurnPart exit part := ⟨part, h, .inl rfl⟩

theorem TurnPart.append {exit : Option Exit} {done part : List Message}
    (hdone : Grouped messageKinds AnsweredInOrder done) (h : TurnPart exit part) :
    TurnPart exit (done ++ part) := by
  rcases h with ⟨done', hdone', hpart⟩
  refine ⟨done ++ done', hdone.append hdone', ?_⟩
  rcases hpart with rfl | ⟨hexit, m, answers, rfl, hcut⟩
  · exact .inl rfl
  · exact .inr ⟨hexit, m, answers, (List.append_assoc _ _ _).symm, hcut⟩

/-- The specification of a part of a turn. -/
def Handed (st : LoopState σ) (r : Run σ (LoopState σ)) : Prop :=
  Ends r (fun st' => ∃ part, Added part st st' ∧ Grouped messageKinds AnsweredInOrder part)
    fun e => ∃ part, Added part st e.1 ∧ TurnPart (some e.2) part

theorem grouped_text {m : Message} (hcalls : m.toolCalls = []) (htool : ¬ m.isTool) :
    Grouped messageKinds AnsweredInOrder [m] :=
  .plain (fun h => h.2 hcalls) htool .nil

theorem Handed.bind {st : LoopState σ} {r : Run σ (LoopState σ)}
    {f : LoopState σ → Run σ (LoopState σ)} (h : Handed st r)
    (hrest : ∀ st', Handed st' (f st')) : Handed st (r >>= f) := by
  refine Ends.bind h fun st₁ h₁ => ?_
  rcases h₁ with ⟨part, hadded, hgrouped⟩
  refine (hrest st₁).mono ?_ ?_
  · intro st₂ hend
    rcases hend with ⟨part', hadded', hgrouped'⟩
    exact ⟨_, hadded.trans hadded', hgrouped.append hgrouped'⟩
  · intro e hend
    rcases hend with ⟨part', hadded', hpart'⟩
    exact ⟨_, hadded.trans hadded', hpart'.append hgrouped⟩

theorem handed_leave (env : LoopEnv σ) (text answer : Str) (st : LoopState σ) :
    Handed st (leave env text answer st) :=
  (leave_ends env text answer st _).mono (fun _ h => h) fun _ h => ⟨[], h, .of_grouped .nil⟩

/-- A text message is handed over whether or not keeping it throws. -/
theorem handed_persist (env : LoopEnv σ) (now : Str) (throws : Bool) {m : Message}
    (hcalls : m.toolCalls = []) (htool : ¬ m.isTool) (st : LoopState σ) :
    Handed st (persist env now throws m st) := by
  have hgrouped : Grouped messageKinds AnsweredInOrder [stamp now m] :=
    grouped_text (by simpa using hcalls) (by simpa using htool)
  exact (persist_ends env now throws m st).mono (fun _ h => ⟨_, h, hgrouped⟩)
    fun _ h => ⟨_, h.1, .of_grouped hgrouped⟩

theorem handed_finish (env : LoopEnv σ) (it : Iteration) (content : Str) (st : LoopState σ) :
    Handed st (finish env it content st) := by
  unfold finish
  simp only
  split
  · exact handed_leave env _ _ st
  · exact (handed_persist env it.now it.persistThrows rfl Role.assistant_ne_tool st).bind
      fun st' => handed_leave env _ _ st'

/-- A round whose calls are answered, or the exception that cuts it. -/
theorem handed_round (env : LoopEnv σ) (it : Iteration) (content : Str) {calls : List ToolCall}
    (hne : calls ≠ []) (hids : ∀ tc ∈ calls, tc.id ≠ []) (st : LoopState σ) :
    Handed st (do
      let asst : Message := { role := Role.assistant, content := content, toolCalls := calls }
      let st ← persist env it.now it.persistThrows asst st
      runTools env it.tools 0 calls st) := by
  have hopens : Message.opensCalls
      (stamp it.now { role := Role.assistant, content := content, toolCalls := calls }) :=
    ⟨stamp_role _ _, fun hnil => hne ((stamp_toolCalls _ _).symm.trans hnil)⟩
  have hcallIds : Message.callIds
      (stamp it.now { role := Role.assistant, content := content, toolCalls := calls }) =
        calls.map (·.id) := stamp_callIds _ _
  have hnonempty : ∀ id ∈ calls.map (·.id), id ≠ [] := List.forall_mem_map.mpr hids
  have hpersist := persist_ends env it.now it.persistThrows
    { role := Role.assistant, content := content, toolCalls := calls } st
  have hcut := hpersist.mono (fun _ h => h) fun e h =>
    show ∃ part, Added part st e.1 ∧ TurnPart (some e.2) part from
      ⟨_, h.1, [], .nil, .inr ⟨congrArg some h.2, _, [], rfl, hopens, by simp, List.nil_prefix,
        hcallIds ▸ hnonempty⟩⟩
  refine Ends.bind hcut fun st₁ h₁ => ?_
  refine (runTools_ends env it.tools 0 calls st₁).mono ?_ ?_
  · intro st₂ hend
    rcases hend with ⟨answers, h₂, htools, hall⟩
    refine ⟨_, h₁.trans h₂, ?_⟩
    have hgroup := Grouped.group (K := messageKinds) hopens htools
      (show AnsweredInOrder _ answers from ⟨hall.trans hcallIds.symm, hcallIds ▸ hnonempty⟩) .nil
    rwa [List.append_nil] at hgroup
  · intro e hend
    rcases hend with ⟨hthrown, answers, h₂, htools, hinit⟩
    exact ⟨_, h₁.trans h₂, [], .nil, .inr ⟨congrArg some hthrown, _, answers, rfl, hopens, htools,
      hcallIds ▸ hinit, hcallIds ▸ hnonempty⟩⟩

theorem handed_handleResponse (env : LoopEnv σ) (it : Iteration) (resp : ModelResponse)
    (st : LoopState σ) : Handed st (handleResponse env it resp st) := by
  have hids := toolCallsOf_ne_nil env.config st.fallbackCounter resp
  unfold handleResponse
  split
  rename_i calls counter hcalls
  rw [hcalls] at hids
  simp only
  split
  · exact handed_finish env it resp.content { st with fallbackCounter := counter }
  · rename_i hne
    exact handed_round env it resp.content hne hids { st with fallbackCounter := counter }

theorem askModel_ends (env : LoopEnv σ) (iteration : Nat) (it : Iteration) (st : LoopState σ) :
    Ends (askModel env iteration it st) (fun r => Added [] st r.1) fun e => Added [] st e.1 := by
  unfold askModel
  split
  · exact leave_ends env _ _ st _
  · split
    · exact .refl st
    · have hsaid := (say_ends env (lit "\n[STATUS] Thinking... (Iteration " ++
        toDecimal (iteration + 1) ++ lit ")\n") st).mono (fun _ h => h) fun _ h => h.1
      refine hsaid.bind fun st₁ h₁ => ?_
      split
      · exact h₁
      · have hleave : ∀ (text : Str) (chunks : List Str),
            Ends (leave env text [] { st₁ with delivered := st₁.delivered ++ chunks })
              (fun r : LoopState σ × ModelResponse => Added [] st r.1) fun e => Added [] st e.1 :=
          fun text chunks =>
          (leave_ends env text [] { st₁ with delivered := st₁.delivered ++ chunks } _).mono
            (fun _ h => h) fun _ h => Added.trans h₁ h
        split
        · exact hleave _ _
        · split
          · exact hleave _ _
          · exact h₁

theorem handed_runIteration (env : LoopEnv σ) (iteration : Nat) (it : Iteration)
    (st : LoopState σ) : Handed st (runIteration env iteration it st) := by
  have hask := (askModel_ends env iteration it st).mono (fun _ h => h) fun e h =>
    show ∃ part, Added part st e.1 ∧ TurnPart (some e.2) part from ⟨[], h, .of_grouped .nil⟩
  refine Ends.bind hask fun r hr => ?_
  refine (handed_handleResponse env it r.2 r.1).mono ?_ ?_
  · intro st₁ hend
    rcases hend with ⟨part, hadded, hgrouped⟩
    exact ⟨part, hr.trans hadded, hgrouped⟩
  · intro e hend
    rcases hend with ⟨part, hadded, hpart⟩
    exact ⟨part, hr.trans hadded, hpart⟩

theorem handed_reactLoop (env : LoopEnv σ) (iteration : Nat) (iterations : List Iteration)
    (st : LoopState σ) : Handed st (reactLoop env iteration iterations st) := by
  induction iterations generalizing iteration st with
  | nil => exact ⟨[], .refl st, .nil⟩
  | cons it rest ih =>
      rw [reactLoop]
      split
      · exact (handed_runIteration env iteration it st).bind fun st₁ => ih (iteration + 1) st₁
      · exact handed_leave env _ _ st

theorem handed_runTurn (env : LoopEnv σ) (turn : Turn) (st : LoopState σ) :
    Handed st (runTurn env turn st) :=
  (handed_persist env turn.now turn.persistThrows rfl Role.user_ne_tool st).bind
    fun st₁ => handed_reactLoop env 0 turn.iterations st₁

/-- The specification of a turn, whether or not it is still running. -/
theorem runTurn_part (env : LoopEnv σ) (turn : Turn) (st : LoopState σ) :
    ∃ part, Added part st (stateOf (runTurn env turn st)) ∧
      TurnPart (exitOf (runTurn env turn st)) part := by
  have h := handed_runTurn env turn st
  unfold Handed at h
  cases hrun : runTurn env turn st with
  | ok st' =>
      rw [hrun] at h
      rcases h with ⟨part, hadded, hgrouped⟩
      exact ⟨part, hadded, .of_grouped hgrouped⟩
  | error e =>
      rw [hrun] at h
      exact h

/-! ## A run of turns -/

theorem runTurns_parts (env : LoopEnv σ) (turns : List Turn) (st : LoopState σ) :
    ∃ parts, List.Forall₂ TurnPart (runTurns env turns st).2 parts ∧
      Added parts.flatten st (runTurns env turns st).1 := by
  induction turns generalizing st with
  | nil => exact ⟨[], .nil, .refl st⟩
  | cons turn rest ih =>
      obtain ⟨part, hadded, hpart⟩ := runTurn_part env turn st
      obtain ⟨parts, hparts, hrest⟩ := ih (stateOf (runTurn env turn st))
      exact ⟨part :: parts, .cons hpart hparts, hadded.trans hrest⟩

theorem isValidMessage_opens {m : Message} (h : m.opensCalls) : isValidMessage m = true := by
  rcases h with ⟨hrole, hcalls⟩
  have hne : m.role ≠ [] := by rw [show m.role = Role.assistant from hrole]; decide
  rw [isValidMessage, if_neg hne, if_pos hrole]
  simp [hcalls]

/-- A tool message with an id is kept when it is not empty. -/
theorem isValidMessage_tool {m : Message} (h : m.isTool) (hid : m.toolCallId ≠ []) :
    isValidMessage m = true ↔ m.content ≠ [] := by
  have hne : m.role ≠ [] := by rw [show m.role = Role.tool from h]; decide
  have hassistant : ¬ m.isAssistant := fun ha => Role.tool_ne_assistant (h.symm.trans ha)
  rw [isValidMessage, if_neg hne, if_neg hassistant, if_pos h]
  simp [hid]

/-- As `AnsweredInOrder`, but only the first calls need have an answer. -/
def AnsweredInPart (m : Message) (answers : List Message) : Prop :=
  answers.map (·.toolCallId) <+: m.callIds ∧ ∀ id ∈ m.callIds, id ≠ []

theorem AnsweredInOrder.inPart {m : Message} {answers : List Message}
    (h : AnsweredInOrder m answers) : AnsweredInPart m answers :=
  ⟨h.1 ▸ List.prefix_rfl, h.2⟩

theorem AnsweredInPart.ids {m : Message} {answers : List Message} (h : AnsweredInPart m answers) :
    ∀ a ∈ answers, a.toolCallId ≠ [] := fun _ ha =>
  h.2 _ (h.1.subset (List.mem_map_of_mem ha))

theorem toolIds_of_grouped {l : List Message} (h : Grouped messageKinds AnsweredInPart l) :
    ∀ a ∈ l, a.isTool → a.toolCallId ≠ [] := by
  induction h with
  | nil => simp
  | plain _ htool _ ih => exact List.forall_mem_cons.mpr ⟨fun ht => absurd ht htool, ih⟩
  | @group m answers rest hopens _ hanswered _ ih =>
      refine List.forall_mem_cons.mpr ⟨fun ht => absurd ht (messageKinds.not_both m hopens), ?_⟩
      exact List.forall_mem_append.mpr ⟨fun a ha _ => hanswered.ids a ha, ih⟩

theorem callIds_of_grouped {l : List Message} (h : Grouped messageKinds AnsweredInPart l) :
    ∀ id ∈ historyCallIds l, id ≠ [] := by
  induction h with
  | nil => simp
  | plain hopens _ _ ih =>
      rw [historyCallIds_cons, askedIds_of_not_opens hopens, List.nil_append]
      exact ih
  | @group m answers rest hopens htools hanswered _ ih =>
      have hnone := historyCallIds_of_not_opens fun a ha => not_opens_of_tool (htools a ha)
      rw [historyCallIds_cons, historyCallIds_append, askedIds_of_opens hopens, hnone,
        List.nil_append]
      exact List.forall_mem_append.mpr ⟨hanswered.2, ih⟩

theorem TurnPart.inPart {exit : Option Exit} {part : List Message} (h : TurnPart exit part) :
    Grouped messageKinds AnsweredInPart part := by
  rcases h with ⟨done, hdone, rfl | ⟨_, m, answers, rfl, hopens, htools, hinit, hids⟩⟩
  · exact hdone.mono fun _ _ h => h.inPart
  · have hcut := Grouped.group (K := messageKinds) hopens htools
      (show AnsweredInPart m answers from ⟨hinit, hids⟩) .nil
    rw [List.append_nil] at hcut
    exact (hdone.mono fun _ _ h => h.inPart).append hcut

theorem inPart_flatten {exits : List (Option Exit)} {parts : List (List Message)}
    (h : List.Forall₂ TurnPart exits parts) :
    Grouped messageKinds AnsweredInPart parts.flatten := by
  induction h with
  | nil => exact .nil
  | cons hpart _ ih => exact hpart.inPart.append ih

theorem TurnPart.grouped {exit : Option Exit} {part : List Message} (h : TurnPart exit part)
    (hexit : exit ≠ some .thrown) : Grouped messageKinds AnsweredInOrder part := by
  rcases h with ⟨done, hdone, rfl | ⟨hthrown, _⟩⟩
  · exact hdone
  · exact absurd hthrown hexit

/-- The parts of turns that no exception ends are one sequence of answered rounds. -/
theorem grouped_flatten {exits : List (Option Exit)} {parts : List (List Message)}
    (h : List.Forall₂ TurnPart exits parts) (hexits : ∀ exit ∈ exits, exit ≠ some .thrown) :
    Grouped messageKinds AnsweredInOrder parts.flatten := by
  induction h with
  | nil => exact .nil
  | cons hpart _ ih =>
      have hfirst := hpart.grouped (hexits _ List.mem_cons_self)
      exact hfirst.append (ih fun exit he => hexits exit (List.mem_cons_of_mem _ he))

/-- In every run of turns, right behind each assistant message with tool calls one
tool message for each of its calls is handed to `AddMessage`, in order, up to the
exception if one ends the turn. What is kept of it are the assistant messages and
the tool messages whose content is not empty. So when no exception ends a turn and
no content is empty, every call has exactly one answer. -/
theorem turns_answered (env : LoopEnv σ) (turns : List Turn) (st : LoopState σ) :
    ∃ parts : List (List Message),
      List.Forall₂ TurnPart (runTurns env turns st).2 parts ∧
      (runTurns env turns st).1.handed = st.handed ++ parts.flatten ∧
      (runTurns env turns st).1.engine.memoryBuffer =
        st.engine.memoryBuffer ++ parts.flatten.filter isValidMessage ∧
      (∀ m ∈ parts.flatten, m.opensCalls → isValidMessage m = true) ∧
      (∀ m ∈ parts.flatten, m.isTool → (isValidMessage m = true ↔ m.content ≠ [])) ∧
      ((∀ exit ∈ (runTurns env turns st).2, exit ≠ some .thrown) →
        (∀ m ∈ parts.flatten, m.isTool → m.content ≠ []) →
        Grouped messageKinds (FullyAnswered Message.callIds Message.toolCallId)
          (parts.flatten.filter isValidMessage)) := by
  obtain ⟨parts, hparts, hhanded, hbuffer⟩ := runTurns_parts env turns st
  have hvalid : ∀ m ∈ parts.flatten, m.isTool → (isValidMessage m = true ↔ m.content ≠ []) :=
    fun m hm ht => isValidMessage_tool ht (toolIds_of_grouped (inPart_flatten hparts) m hm ht)
  refine ⟨parts, hparts, hhanded, hbuffer, fun m _ => isValidMessage_opens, hvalid, ?_⟩
  intro hexits hcontents
  have hgrouped := (grouped_flatten hparts hexits).mono fun _ _ h => h.1
  refine hgrouped.filter fun m hm hkind => ?_
  rcases hkind with hopens | htool
  · exact isValidMessage_opens hopens
  · exact (hvalid m hm htool).mpr (hcontents m hm htool)

/-- A library that prints the tag of a call without arguments. -/
def tagLib : JsonLib where
  parse := fun s => if s = lit "\x7b\x7d" then some (.obj []) else none
  dump := fun j => match j with
    | .obj [(_, .obj []), (_, .str id), (_, .str name)] =>
        some (lit "\x7b\"arguments\":\x7b\x7d,\"id\":\"" ++ id ++ lit "\",\"name\":\"" ++ name ++
          lit "\"\x7d")
    | _ => none
  dumpIndented := fun _ _ => none
  floatToInt := fun _ => 0

/-- A session in memory whose callback never throws. -/
def quietEnv : LoopEnv Unit where
  config := { sessionId := lit "s" }
  lib := tagLib
  storage := { saveMessage := fun _ _ => (), loadHistory := fun _ => ([], true) }
  callback := fun _ _ => false

/-- Every call of an assistant message in the history has exactly one tool message. -/
def EveryCallAnswered (history : List Message) : Prop :=
  ∀ m ∈ history, m.opensCalls → ∀ id ∈ m.callIds,
    (history.filter fun a => a.isTool ∧ a.toolCallId = id).length = 1

instance (history : List Message) : Decidable (EveryCallAnswered history) :=
  inferInstanceAs (Decidable (∀ m ∈ history, m.opensCalls → ∀ id ∈ m.callIds,
    (history.filter fun a => a.isTool ∧ a.toolCallId = id).length = 1))

/-- The history after some turns of a new session. -/
def historyAfter (env : LoopEnv Unit) (turns : List Turn) : List Message :=
  (runTurns env turns { engine := ⟨[], ()⟩ }).1.engine.memoryBuffer

/-- A turn in which the model asks for one call and the tool does what `tool` says. -/
def askingTurn (tool : ToolRun) : Turn where
  query := lit "book a flight"
  iterations :=
    [{ model := { response := some { toolCalls := [⟨lit "c", lit "ask_user", lit "\x7b\x7d"⟩] } }
       tools := fun _ => tool }]

/-- The next query, before its first iteration. -/
def nextTurn : Turn where
  query := lit "hello?"
  iterations := []

/-- A call stays without an answer when its observation is empty, as that of a question
nobody answers, and when an exception ends the turn before it is answered. -/
theorem call_not_answered :
    ¬ EveryCallAnswered (historyAfter quietEnv [askingTurn { observation := some [] }]) ∧
      ¬ EveryCallAnswered
        (historyAfter quietEnv [askingTurn { observation := none }, nextTurn]) := by
  constructor
  · decide +kernel
  · decide +kernel

/-! ## The history of a session -/

/-- Whatever happens in the turns of a session, its history stays one that the window
is protocol-valid for, as long as no id is used twice. -/
theorem runTurns_react (env : LoopEnv σ) (turns : List Turn) (st : LoopState σ)
    (hst : ReactHistory st.engine.memoryBuffer)
    (hnodup : (historyCallIds (runTurns env turns st).1.engine.memoryBuffer).Nodup) :
    ReactHistory (runTurns env turns st).1.engine.memoryBuffer := by
  rcases runTurns_parts env turns st with ⟨parts, hparts, _, hbuffer⟩
  have hpart := inPart_flatten hparts
  have hpartly : Grouped messageKinds (PartlyAnswered Message.callIds Message.toolCallId)
      parts.flatten := hpart.mono fun _ _ h => h.1.sublist
  have hgrouped := hpartly.filter_partly fun m _ => isValidMessage_opens
  have hids : ∀ id ∈ historyCallIds (parts.flatten.filter isValidMessage), id ≠ [] := by
    intro id hid
    rcases List.mem_flatMap.mp hid with ⟨m, hm, hid⟩
    exact callIds_of_grouped hpart id (List.mem_flatMap.mpr ⟨m, List.mem_of_mem_filter hm, hid⟩)
  refine ⟨?_, ?_, hnodup⟩
  · rw [hbuffer]
    exact hst.grouped.append hgrouped
  · rw [hbuffer, historyCallIds_append]
    exact List.forall_mem_append.mpr ⟨hst.ids_ne_nil, hids⟩

end JiuwenCore.Worker
