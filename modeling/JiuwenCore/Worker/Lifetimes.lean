import JiuwenCore.Worker.Answers
import JiuwenCore.Worker.CallIds

/-!
# A session over the lifetimes of its processes

The counter behind the ids `ReactLoop` makes starts again with the process, while
the history they are added to is loaded from the storage. In a run of lifetimes they
stay apart from the ids of the history as long as no id that comes from outside,
loaded or returned by a model, has a number still to be given.
-/

namespace JiuwenCore.Worker

open ContextEngine Models

variable {σ : Type}

/-! ## The ids a part of the loop adds -/

/-- `st'` comes from `st` with the given counter and without other ids than `ids` in
the history. -/
def Grows (ids : List Str) (counter : Nat) (st st' : LoopState σ) : Prop :=
  st'.fallbackCounter = counter ∧
    ∀ id ∈ historyCallIds st'.engine.memoryBuffer,
      id ∈ historyCallIds st.engine.memoryBuffer ∨ id ∈ ids

theorem Grows.refl (st : LoopState σ) : Grows [] st.fallbackCounter st st :=
  ⟨rfl, fun _ h => .inl h⟩

theorem Grows.trans {ids ids' : List Str} {counter : Nat} {st st₁ st₂ : LoopState σ}
    (h : Grows ids counter st st₁) (h' : Grows ids' st₁.fallbackCounter st₁ st₂) :
    Grows (ids ++ ids') counter st st₂ := by
  refine ⟨h'.1.trans h.1, fun id hid => ?_⟩
  rw [List.mem_append]
  rcases h'.2 id hid with hid | hid
  · exact (h.2 id hid).imp_right .inl
  · exact .inr (.inr hid)

/-- A part of the loop that only adds `ids`, however it ends. -/
def Adds {α : Type} (ids : List Str) (st : LoopState σ) (r : Run σ α) (state : α → LoopState σ) :
    Prop :=
  Ends r (fun a => Grows ids st.fallbackCounter st (state a))
    fun e => Grows ids st.fallbackCounter st e.1

theorem adds_say (env : LoopEnv σ) (text : Str) (st : LoopState σ) :
    Adds [] st (say env text st) id := by
  unfold Adds say
  simp only
  split
  · exact .refl st
  · exact .refl st

theorem adds_leave {α : Type} (env : LoopEnv σ) (text answer : Str) (st : LoopState σ)
    (state : α → LoopState σ) : Adds [] st (leave env text answer st) state :=
  Ends.bind (adds_say env text st) fun _ h => h

theorem adds_persist (env : LoopEnv σ) (now : Str) (throws : Bool) (m : Message)
    (st : LoopState σ) : Adds (askedIds m) st (persist env now throws m st) id := by
  have hasked : askedIds (stamp now m) = askedIds m := by
    simp [askedIds, Message.isAssistant]
  have hgrows : ∀ handed : List Message, Grows (askedIds m) st.fallbackCounter st
      { st with engine := addMessage env.storage now m st.engine, handed := handed } := by
    refine fun _ => ⟨rfl, fun id hid => ?_⟩
    rw [addMessage_buffer, historyCallIds_append, List.mem_append] at hid
    refine hid.imp_right fun hid => ?_
    obtain ⟨x, hx, hid⟩ := List.mem_flatMap.mp hid
    rw [List.mem_singleton.mp (List.mem_of_mem_filter hx), hasked] at hid
    exact hid
  unfold Adds persist
  simp only
  split
  · exact hgrows _
  · exact hgrows _

theorem Grows.weaken {ids ids' : List Str} {counter : Nat} {st st' : LoopState σ}
    (h : Grows ids counter st st') (hids : ids ⊆ ids') : Grows ids' counter st st' :=
  ⟨h.1, fun id hid => (h.2 id hid).imp_right fun hid => hids hid⟩

theorem Adds.bind {α β : Type} {ids ids' : List Str} {st : LoopState σ} {r : Run σ α}
    {f : α → Run σ β} {state : α → LoopState σ} {state' : β → LoopState σ}
    (h : Adds ids st r state) (hrest : ∀ a, Adds ids' (state a) (f a) state') :
    Adds (ids ++ ids') st (r >>= f) state' := by
  have hfirst := Ends.mono h (fun _ h => h) fun _ h => h.weaken (List.subset_append_left ids ids')
  refine hfirst.bind fun a ha => ?_
  exact (hrest a).mono (fun _ h => Grows.trans ha h) fun _ h => Grows.trans ha h

theorem askedIds_toolMessage (tc : ToolCall) (observation : Str) (payload : PayloadWrite) :
    askedIds (toolMessage tc observation payload) = [] := by
  unfold toolMessage
  cases payload with
  | written result =>
      simp only
      split <;> rfl
  | noRuntime => rfl
  | thrown => rfl

/-- A tool call adds nothing, and its message carries no calls. -/
theorem runTool_grows (env : LoopEnv σ) (tc : ToolCall) (run : ToolRun) (st : LoopState σ) :
    Ends (runTool env tc run st)
      (fun r => Grows [] st.fallbackCounter st r.1 ∧ askedIds r.2 = [])
      fun e => Grows [] st.fallbackCounter st e.1 := by
  unfold runTool
  split
  · exact .refl st
  · refine Ends.bind (adds_say env _ st) fun st₁ h₁ => ?_
    split
    · exact h₁
    · rename_i tag _ observation _
      have hsay := adds_say env (lit "\n[TOOL_RESPONSE " ++ tc.id ++ lit "] " ++ observation ++
        lit "\n") { st₁ with delivered := st₁.delivered ++ run.streamed }
      have hresponse := Ends.mono hsay (fun _ h => Grows.trans h₁ h) fun _ h => Grows.trans h₁ h
      refine hresponse.bind fun st₂ h₂ => ?_
      split
      · exact h₂
      · exact ⟨h₂, askedIds_toolMessage tc _ _⟩

theorem adds_runTools (env : LoopEnv σ) (tools : Nat → ToolRun) (k : Nat) (calls : List ToolCall)
    (st : LoopState σ) : Adds [] st (runTools env tools k calls st) id := by
  induction calls generalizing k st with
  | nil => exact .refl st
  | cons tc calls ih =>
      rw [runTools]
      refine Ends.bind (runTool_grows env tc (tools k) st) fun r hr => ?_
      rcases r with ⟨st₁, tool⟩
      obtain ⟨h₁, hasked⟩ : Grows [] st.fallbackCounter st st₁ ∧ askedIds tool = [] := hr
      have hpersist := adds_persist env (tools k).now (tools k).persistThrows tool st₁
      rw [hasked] at hpersist
      have hrest := hpersist.bind fun st₂ => ih (k + 1) st₂
      exact Ends.mono hrest (fun _ h => h₁.trans h) fun _ h => h₁.trans h

/-- A final answer carries no calls. -/
theorem adds_finish (env : LoopEnv σ) (it : Iteration) (content : Str) (st : LoopState σ) :
    Adds [] st (finish env it content st) id := by
  unfold finish
  simp only
  split
  · exact adds_leave env _ _ st _
  · exact (adds_persist env it.now it.persistThrows _ st).bind
      fun st' => adds_leave env _ _ st' _

theorem adds_askModel (env : LoopEnv σ) (iteration : Nat) (it : Iteration) (st : LoopState σ) :
    Adds [] st (askModel env iteration it st) fun r => r.1 := by
  unfold askModel
  split
  · exact adds_leave env _ _ st _
  · split
    · exact .refl st
    · refine (adds_say env _ st).bind fun st₁ => ?_
      split
      · exact .refl st₁
      · split
        · exact adds_leave env _ _ { st₁ with delivered := _ } _
        · split
          · exact adds_leave env _ _ { st₁ with delivered := _ } _
          · exact .refl st₁

/-- A response adds the ids of its calls, and moves the counter behind them. -/
theorem handleResponse_grows (env : LoopEnv σ) (it : Iteration) (resp : ModelResponse)
    (st : LoopState σ) :
    let calls := toolCallsOf env.config st.fallbackCounter resp
    Ends (handleResponse env it resp st) (Grows (calls.1.map (·.id)) calls.2 st)
      fun e => Grows (calls.1.map (·.id)) calls.2 st e.1 := by
  unfold handleResponse
  generalize toolCallsOf env.config st.fallbackCounter resp = calls
  rcases calls with ⟨calls, counter⟩
  simp only
  have hcounted : Grows [] counter st { st with fallbackCounter := counter } :=
    ⟨rfl, fun _ h => .inl h⟩
  split
  · have hfinish := adds_finish env it resp.content { st with fallbackCounter := counter }
    exact Ends.mono hfinish (fun _ h => (hcounted.trans h).weaken (List.nil_subset _))
      fun _ h => (hcounted.trans h).weaken (List.nil_subset _)
  · have hround := (adds_persist env it.now it.persistThrows
      { role := Role.assistant, content := resp.content, toolCalls := calls }
      { st with fallbackCounter := counter }).bind fun st₁ => adds_runTools env it.tools 0 calls st₁
    have hasked : askedIds { role := Role.assistant, content := resp.content, toolCalls := calls } =
        calls.map (·.id) := rfl
    rw [hasked, List.append_nil] at hround
    exact Ends.mono hround (fun _ h => hcounted.trans h) fun _ h => hcounted.trans h

/-! ## Runs of lifetimes -/

/-- What happens to a session: the start of a process or a new engine in the same
one, ids made for other sessions, a query, an iteration of the loop. -/
inductive Event where
  | initialized (newProcess : Bool)
  | otherSessions (count : Nat)
  | query (text now : Str) (persistThrows : Bool)
  | iteration (index : Nat) (it : Iteration)

def step (env : LoopEnv σ) (st : LoopState σ) : Event → LoopState σ
  | .initialized newProcess =>
      { st with
        engine := initializeEngine env.storage st.engine.storage
        fallbackCounter := if newProcess then 0 else st.fallbackCounter }
  | .otherSessions count => { st with fallbackCounter := (st.fallbackCounter + count) % 2 ^ 64 }
  | .query text now persistThrows =>
      stateOf (persist env now persistThrows { role := Role.user, content := text } st)
  | .iteration index it => stateOf (runIteration env index it st)

/-- No id that comes from outside has a number that is still to be given, and the
counter has room. -/
def Clean (env : LoopEnv σ) (st : LoopState σ) : Event → Prop
  | .initialized newProcess =>
      NoneAhead env.config (if newProcess then 0 else st.fallbackCounter)
        (historyCallIds (initializeEngine env.storage st.engine.storage).memoryBuffer)
  | .otherSessions count => st.fallbackCounter + count < 2 ^ 64
  | .query _ _ _ => True
  | .iteration _ it => ∀ resp, it.model.response = some resp →
      NoneAhead env.config st.fallbackCounter (resp.toolCalls.map (·.id)) ∧
        st.fallbackCounter + callCount resp < 2 ^ 64

def run (env : LoopEnv σ) (events : List Event) (st : LoopState σ) : LoopState σ :=
  events.foldl (step env) st

/-- All steps of a run are clean. -/
def CleanRun (env : LoopEnv σ) : List Event → LoopState σ → Prop
  | [], _ => True
  | event :: rest, st => Clean env st event ∧ CleanRun env rest (step env st event)

/-- No id of the history has a number that is still to be given. -/
def Fresh (config : LoopConfig) (st : LoopState σ) : Prop :=
  NoneAhead config st.fallbackCounter (historyCallIds st.engine.memoryBuffer)

theorem NoneAhead.mono {config : LoopConfig} {counter counter' : Nat} {ids : List Str}
    (h : NoneAhead config counter ids) (hle : counter ≤ counter') :
    NoneAhead config counter' ids :=
  fun id hid n hn hnumber => (h id hid n hn hnumber).trans hle

theorem Fresh.of_grows {config : LoopConfig} {ids : List Str} {counter : Nat} {st st' : LoopState σ}
    (h : Fresh config st) (hgrows : Grows ids counter st st') (hle : st.fallbackCounter ≤ counter)
    (hids : NoneAhead config counter ids) : Fresh config st' := by
  intro id hid n hn hnumber
  rw [hgrows.1]
  rcases hgrows.2 id hid with hold | hnew
  · exact (h id hold n hn hnumber).trans hle
  · exact hids id hnew n hn hnumber

/-- What a response adds has no number ahead of the new counter. -/
theorem noneAhead_toolCallsOf {config : LoopConfig} {counter : Nat} {resp : ModelResponse}
    (hroom : counter + callCount resp < 2 ^ 64)
    (hclean : NoneAhead config counter (resp.toolCalls.map (·.id))) :
    NoneAhead config (toolCallsOf config counter resp).2
      ((toolCallsOf config counter resp).1.map (·.id)) := by
  obtain ⟨hids, hcounter⟩ := @toolCallsOf_ids config counter resp hroom
  rw [hcounter]
  intro id hid n hn hnumber
  rcases (hids id).mp hid with ⟨hgiven, _⟩ | hmade
  · have hle := hclean id hgiven n hn hnumber
    omega
  · obtain ⟨n', _, hle, hnumber'⟩ := (madeIds_numbers hroom).2 id hmade
    rw [hnumber.unique hnumber']
    exact hle

theorem noneAhead_nil (config : LoopConfig) (counter : Nat) : NoneAhead config counter [] :=
  fun _ hid => absurd hid List.not_mem_nil

/-- What holds of the state however a part of the loop ends holds of the state it
leaves behind. -/
theorem stateOf_of_ends {r : Run σ (LoopState σ)} {p : LoopState σ → Prop}
    (h : Ends r p fun e => p e.1) : p (stateOf r) := by
  cases r with
  | ok st => exact h
  | error e => exact h

/-- A response that counts is the one the model has given. -/
theorem askModel_response {env : LoopEnv σ} {index : Nat} {it : Iteration} {st st' : LoopState σ}
    {resp : ModelResponse} (h : askModel env index it st = .ok (st', resp)) :
    it.model.response = some resp := by
  have hends : Ends (askModel env index it st) (fun r => it.model.response = some r.2)
      fun _ => True := by
    unfold askModel
    split
    · exact Ends.bind_of_forall (fun _ => trivial) fun _ => trivial
    · split
      · trivial
      · refine Ends.bind_of_forall (fun _ => trivial) fun st₁ => ?_
        split
        · trivial
        · rename_i resp hresp
          split
          · exact Ends.bind_of_forall (fun _ => trivial) fun _ => trivial
          · split
            · exact Ends.bind_of_forall (fun _ => trivial) fun _ => trivial
            · exact hresp
  rw [h] at hends
  exact hends

/-- A clean iteration keeps the ids of the history behind the counter. -/
theorem fresh_iteration {env : LoopEnv σ} {index : Nat} {it : Iteration} {st : LoopState σ}
    (hfresh : Fresh env.config st) (hclean : Clean env st (.iteration index it)) :
    Fresh env.config (step env st (.iteration index it)) := by
  have hask : ∀ {st' : LoopState σ}, Grows [] st.fallbackCounter st st' → Fresh env.config st' :=
    fun h => hfresh.of_grows h (le_refl _) (noneAhead_nil _ _)
  refine stateOf_of_ends ?_
  unfold runIteration
  cases hresponse : askModel env index it st with
  | error e =>
      have hadds := adds_askModel env index it st
      rw [hresponse] at hadds
      exact hask hadds
  | ok r =>
      rcases r with ⟨st₁, resp⟩
      have hadds := adds_askModel env index it st
      rw [hresponse] at hadds
      have hgrows : Grows [] st.fallbackCounter st st₁ := hadds
      obtain ⟨hgiven, hroom⟩ := hclean resp (askModel_response hresponse)
      rw [← hgrows.1] at hgiven hroom
      have hahead := noneAhead_toolCallsOf hroom hgiven
      have hcounter := (@toolCallsOf_ids env.config _ resp hroom).2
      have hkeeps : ∀ {st' : LoopState σ}, Grows
          ((toolCallsOf env.config st₁.fallbackCounter resp).1.map (·.id))
          (toolCallsOf env.config st₁.fallbackCounter resp).2 st₁ st' → Fresh env.config st' :=
        fun h => (hask hgrows).of_grows h (by omega) hahead
      exact (handleResponse_grows env it resp st₁).mono (fun _ h => hkeeps h) fun _ h => hkeeps h

theorem fresh_step {env : LoopEnv σ} {st : LoopState σ} {event : Event}
    (hfresh : Fresh env.config st) (hclean : Clean env st event) :
    Fresh env.config (step env st event) := by
  cases event with
  | initialized newProcess => exact hclean
  | otherSessions count =>
      have hsum : (st.fallbackCounter + count) % 2 ^ 64 = st.fallbackCounter + count :=
        Nat.mod_eq_of_lt hclean
      exact NoneAhead.mono hfresh
        (show st.fallbackCounter ≤ (st.fallbackCounter + count) % 2 ^ 64 by omega)
  | query text now persistThrows =>
      have hadds := adds_persist env now persistThrows { role := Role.user, content := text } st
      exact stateOf_of_ends (hadds.mono
        (fun _ h => hfresh.of_grows h (le_refl _) (noneAhead_nil _ _))
        fun _ h => hfresh.of_grows h (le_refl _) (noneAhead_nil _ _))
  | iteration index it => exact fresh_iteration hfresh hclean

theorem fresh_run {env : LoopEnv σ} {events : List Event} {st : LoopState σ}
    (hfresh : Fresh env.config st) (hclean : CleanRun env events st) :
    Fresh env.config (run env events st) := by
  induction events generalizing st with
  | nil => exact hfresh
  | cons event rest ih => exact ih (fresh_step hfresh hclean.1) hclean.2

theorem cleanRun_append {env : LoopEnv σ} {events rest : List Event} {st : LoopState σ} :
    CleanRun env (events ++ rest) st ↔
      CleanRun env events st ∧ CleanRun env rest (run env events st) := by
  induction events generalizing st with
  | nil => exact (and_iff_right trivial).symm
  | cons event events ih =>
      rw [List.cons_append, CleanRun, CleanRun, ih, and_assoc]
      rfl

/-- In every run of clean steps, over any number of processes, the ids the loop makes
for a response are distinct, none of them is in the history, and the response brings
none of them. -/
theorem made_ids_fresh (env : LoopEnv σ) (kept : σ) (events : List Event) (index : Nat)
    (it : Iteration) (st : LoopState σ) (resp : ModelResponse)
    (hrun : CleanRun env (events ++ [.iteration index it]) { engine := ⟨[], kept⟩ })
    (hask : askModel env index it (run env events { engine := ⟨[], kept⟩ }) = .ok (st, resp)) :
    (madeIds env.config st.fallbackCounter resp).Nodup ∧
      ∀ id ∈ madeIds env.config st.fallbackCounter resp,
        id ∉ historyCallIds st.engine.memoryBuffer ∧ id ∉ resp.toolCalls.map (·.id) := by
  obtain ⟨hevents, hlast, _⟩ := cleanRun_append.mp hrun
  have hempty : Fresh env.config ({ engine := ⟨[], kept⟩ } : LoopState σ) := noneAhead_nil _ _
  have hfresh := fresh_run hempty hevents
  have hadds := adds_askModel env index it (run env events { engine := ⟨[], kept⟩ })
  rw [hask] at hadds
  have hgrows : Grows [] _ _ st := hadds
  have hnow : Fresh env.config st := hfresh.of_grows hgrows (le_refl _) (noneAhead_nil _ _)
  obtain ⟨hgiven, hroom⟩ := hlast resp (askModel_response hask)
  rw [← hgrows.1] at hgiven hroom
  obtain ⟨hnodup, hnumbers⟩ := @madeIds_numbers env.config st.fallbackCounter resp hroom
  have hlength := madeIds_length_le env.config st.fallbackCounter resp
  refine ⟨hnodup, fun id hid => ?_⟩
  obtain ⟨n, hlt, hle, hnumber⟩ := hnumbers id hid
  constructor
  · intro hmem
    have hbehind := hnow id hmem n (by omega) hnumber
    omega
  · intro hmem
    have hbehind := hgiven id hmem n (by omega) hnumber
    omega

/-- A session in a list of messages. -/
def listEnv : LoopEnv (List Message) where
  config := { sessionId := lit "s" }
  lib := tagLib
  storage := { saveMessage := fun kept m => kept ++ [m], loadHistory := fun kept => (kept, true) }
  callback := fun _ _ => false

/-- An iteration in which the server returns a call without an id. -/
def namelessCall : Iteration where
  model := { response := some { toolCalls := [⟨[], lit "now", lit "\x7b\x7d"⟩] } }
  tools := fun _ => { observation := some (lit "noon") }

def firstLifetime : List Event :=
  [.initialized true, .query (lit "what time is it?") [] false, .iteration 0 namelessCall]

theorem made_ids_fresh_once :
    ∃ st resp, askModel listEnv 0 namelessCall
        (run listEnv (firstLifetime.take 2) { engine := ⟨[], []⟩ }) = .ok (st, resp) ∧
      (madeIds listEnv.config st.fallbackCounter resp).Nodup ∧
      ∀ id ∈ madeIds listEnv.config st.fallbackCounter resp,
        id ∉ historyCallIds st.engine.memoryBuffer ∧ id ∉ resp.toolCalls.map (·.id) := by
  have hclean : CleanRun listEnv firstLifetime { engine := ⟨[], []⟩ } := by
    refine ⟨noneAhead_nil _ _, trivial, fun resp hresp => ?_, trivial⟩
    cases hresp
    refine ⟨fun id hid n _ hnumber => ?_, by decide +kernel⟩
    rw [List.mem_singleton.mp hid] at hnumber
    rcases hnumber with h | h
    · exact absurd h.symm (callId_ne_nil _ n)
    · exact absurd h.symm (callId_ne_nil _ n)
  refine ⟨_, _, rfl, ?_⟩
  exact made_ids_fresh listEnv [] (firstLifetime.take 2) 0 namelessCall _ _ hclean rfl

/-- The second process numbers its calls from one again. -/
theorem made_ids_repeat :
    ¬ ∀ (env : LoopEnv (List Message)) (events : List Event) (index : Nat) (it : Iteration)
      (st : LoopState (List Message)) (resp : ModelResponse),
      askModel env index it (run env events { engine := ⟨[], []⟩ }) = .ok (st, resp) →
        ∀ id ∈ madeIds env.config st.fallbackCounter resp,
          id ∉ historyCallIds st.engine.memoryBuffer := by
  intro h
  have hfresh := h listEnv (firstLifetime ++ firstLifetime.take 2) 0 namelessCall _ _ rfl
    (callId (lit "s") 1)
  have hmade : callId (lit "s") 1 ∈ madeIds listEnv.config 0
      { toolCalls := [⟨[], lit "now", lit "\x7b\x7d"⟩] } := by
    decide +kernel
  refine hfresh hmade ?_
  decide +kernel

end JiuwenCore.Worker
