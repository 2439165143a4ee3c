import JiuwenCore.Session.Registry

/-!
# What a reload does to the sessions

A reload may move the place where sessions are stored, and it retires the agent that the
entries are bound to. A turn runs on the agent it was bound to; whether its entry still
names that agent depends on the other calls of the session.
-/

namespace JiuwenCore.Session

/-! ## Directories -/

/-- A reload leaves every session in its directory if and only if it does not happen, or the
base path it brings leads to where the one before leads. -/
theorem reload_keeps_directories_iff (st : State) (newConfig : AgentConfig) (constructed : Bool) :
    (∀ sessionId, (reloadAgent newConfig constructed st).sessionDirectory sessionId =
        st.sessionDirectory sessionId) ↔
      ¬ (st.initialized ∧ constructed) ∨
        locate st.cwd (basePathOf newConfig.dataBasePath) = st.root := by
  by_cases hready : st.initialized ∧ constructed
  · have hroot : (reloadAgent newConfig constructed st).root =
        locate st.cwd (basePathOf newConfig.dataBasePath) := by
      rw [reloadAgent, if_pos hready]
      dsimp only
      split <;> rfl
    rw [or_iff_right (not_not.mpr hready), ← hroot]
    simp only [sessionDirectory_eq]
    constructor
    · exact fun h => List.append_cancel_right (h [])
    · intro h sessionId
      rw [h]
  · rw [reloadAgent, if_neg hready]
    exact iff_of_true (fun _ => rfl) (Or.inl hready)

/-- The manager stores its sessions under an absolute path, and the new configuration has
no base path. -/
theorem reload_detaches : ¬ ∀ st newConfig sessionId, Run step AnyStep {} st → st.initialized →
    (reloadAgent newConfig true st).sessionDirectory sessionId = st.sessionDirectory sessionId := by
  intro h
  obtain ⟨st, hrun, hready, hmoved⟩ := exists_run_of_any step AnyStep {}
    (p := fun st => st.initialized ∧
      (reloadAgent {} true st).sessionDirectory (lit "s1") ≠ st.sessionDirectory (lit "s1"))
    [.restart ⟨lit "/srv", none⟩ { dataBasePath := lit "/var/claw" } [] .found]
    (by decide +kernel)
  exact hmoved (h st {} (lit "s1") hrun hready)

/-! ## Agents -/

/-- The agent whose skills `GetSkillEngine` gives to a thread with a cached entry. -/
def getSkillEngine (current : Option Nat) (st : State) : Option Nat :=
  ((current.bind (st.entries[·]?)).bind (·.agent)).or st.agent

/-- The agent `IsSessionBusy` asks about a session. -/
def boundAgent (sessionId : Str) (st : State) : Option Nat :=
  (st.sessions.lookup sessionId).bind fun e => (st.entries[e]?).bind (·.agent)

/-- Every running turn finds its own agent in its entry, and so do those who ask. -/
def State.OneTurnOneAgent (st : State) : Prop :=
  ∀ call ∈ st.calls, ∀ e a, call.phase = .running e a →
    (st.entries[e]?).bind (·.agent) = some a ∧ getSkillEngine (some e) st = some a ∧
      boundAgent call.conversation.sessionId st = some a

/-- No call has been given the entry. -/
def State.Idle (st : State) (e : Nat) : Prop :=
  ∀ call ∈ st.calls, call.phase.turn.map (·.1) ≠ some e

instance (st : State) (e : Nat) : Decidable (st.Idle e) :=
  inferInstanceAs (Decidable (∀ call ∈ st.calls, _))

/-- A call that takes a session away from a draining agent is alone with it, and a session is
erased while it is idle. -/
def KeepsTurns (st : State) : Event → Prop
  | .findEntry i .found => ∀ call ∈ st.calls[i]?,
      ∀ e ∈ st.sessions.lookup call.conversation.sessionId,
        ∀ a ∈ (st.entries[e]?).bind (·.agent), a ∈ st.draining → st.Idle e
  | .eraseEntry k => ∀ removal ∈ st.removals[k]?,
      ∀ e ∈ st.sessions.lookup removal.sessionId, st.Idle e
  | _ => True

instance (st : State) : (e : Event) → Decidable (KeepsTurns st e)
  | .findEntry i .found => inferInstanceAs (Decidable (∀ call ∈ st.calls[i]?,
      ∀ e ∈ st.sessions.lookup call.conversation.sessionId,
        ∀ a ∈ (st.entries[e]?).bind (·.agent), a ∈ st.draining → st.Idle e))
  | .eraseEntry k => inferInstanceAs (Decidable (∀ removal ∈ st.removals[k]?,
      ∀ e ∈ st.sessions.lookup removal.sessionId, st.Idle e))
  | .findEntry _ (.throws _) | .restart _ _ _ _ | .reload _ _ | .register _ | .invoke _
  | .invokeChannel _ _ _ | .enterGate _ | .testGate _ | .wake _ | .lockTurn _ | .addMessage _ _ _
  | .endTurn _ _ | .releaseGate _ | .finish _ | .getOrCreate _ _ | .removeSession _ | .tryLock _
  | .deleteDirectory _ _ => inferInstanceAs (Decidable True)

theorem State.Idle.no_turn {st : State} {e a : Nat} (h : st.Idle e) {call : Call}
    (hcall : call ∈ st.calls) : call.phase.turn ≠ some (e, a) := by
  intro hturn
  exact h call hcall (by rw [hturn]; rfl)

/-- The registry finds the entry and the agent of every turn. -/
def TurnsBound (st : State) : Prop :=
  ∀ call ∈ st.calls, ∀ e a, call.phase.turn = some (e, a) →
    st.sessions.lookup call.conversation.sessionId = some e ∧
      (st.entries[e]?).bind (·.agent) = some a

theorem TurnsBound.oneTurnOneAgent {st : State} (h : TurnsBound st) : st.OneTurnOneAgent := by
  intro call hcall e a hrunning
  have hturn : call.phase.turn = some (e, a) := by
    rw [hrunning]
    rfl
  obtain ⟨hlookup, hagent⟩ := h call hcall e a hturn
  refine ⟨hagent, ?_, ?_⟩
  · rw [getSkillEngine, Option.bind_some, hagent, Option.some_or]
  · rw [boundAgent, hlookup, Option.bind_some, hagent]

/-! ## Steps -/

section

variable {st st' : State} {i : Nat}

theorem TurnsBound.quiet (h : TurnsBound st) (hquiet : Quiet st st') : TurnsBound st' := by
  intro call' hcall' e a hturn'
  obtain ⟨call, hcall, hconversation, hturn⟩ := hquiet.mem hcall'
  obtain ⟨hlookup, hagent⟩ := h call hcall e a (hturn _ hturn')
  obtain ⟨entry, hentry, ha⟩ := Option.bind_eq_some_iff.mp hagent
  obtain ⟨entry', hentry', hsame⟩ := hquiet.entry_kept hentry
  rw [hconversation, hquiet.registry.1, hentry', Option.bind_some,
    (SessionEntry.unlocked_inj hsame).2.1]
  exact ⟨hlookup, ha⟩

theorem TurnsBound.lookup (h : TurnsBound st) (sessionId : Str) (outcome : Lookup) :
    TurnsBound (lookupEntry sessionId st outcome) := by
  refine lookupEntry_keeps outcome h (fun hnew => ?_) fun _ => h
  intro call hcall e a hturn
  obtain ⟨hlookup, hagent⟩ := h call hcall e a hturn
  obtain ⟨entry, hentry, ha⟩ := Option.bind_eq_some_iff.mp hagent
  have hid : call.conversation.sessionId ≠ sessionId := by
    intro heq
    rw [heq, hnew] at hlookup
    cases hlookup
  rw [createEntry_old sessionId st hentry, createEntry, AList.lookup_insert_ne hid]
  exact ⟨hlookup, ha⟩

theorem rebind_active {entry : SessionEntry} {a : Nat} (ha : entry.agent = some a)
    (hactive : a ∉ st.draining) : rebind st entry = entry := by
  rw [rebind, ha]
  exact if_neg hactive

/-- An idle entry may be bound to another agent, and any entry to its own. -/
theorem TurnsBound.rebind (h : TurnsBound st) (e : Nat)
    (hidle : ∀ a, (st.entries[e]?).bind (·.agent) = some a → a ∈ st.draining → st.Idle e) :
    TurnsBound (st.modifyEntry e (rebind st)) := by
  intro call hcall j a hturn
  obtain ⟨hlookup, hagent⟩ := h call hcall j a hturn
  obtain ⟨entry, hentry, ha⟩ := Option.bind_eq_some_iff.mp hagent
  refine ⟨hlookup, ?_⟩
  rw [getElem?_modifyEntry, hentry, Option.map_some, Option.bind_some]
  split
  · rename_i hej
    subst hej
    have hactive : a ∉ st.draining := fun hdrains =>
      (hidle a hagent hdrains).no_turn hcall hturn
    rw [rebind_active ha hactive]
    exact ha
  · exact ha

theorem TurnsBound.bound (h : TurnsBound st) {phase : Phase} {conversation : Conversation}
    {e : Nat} (hcall : st.calls[i]? = some ⟨conversation, .admitted⟩)
    (hlookup : st.sessions.lookup conversation.sessionId = some e)
    (hphase : (∃ a, (st.entries[e]?).bind (·.agent) = some a ∧ phase = .bound e a) ∨
      phase.turn = none) : TurnsBound (st.setPhase i phase) := by
  intro call hmem j a hturn
  rcases mem_setPhase hmem with hmem | ⟨before, hbefore, rfl⟩
  · exact h call hmem j a hturn
  · rw [hcall, Option.some.injEq] at hbefore
    subst hbefore
    rcases hphase with ⟨b, hagent, rfl⟩ | hnone
    · cases hturn
      exact ⟨hlookup, hagent⟩
    · rw [show phase.turn = some (j, a) from hturn] at hnone
      cases hnone

/-- The entry a call finds is idle when it is about to lose its agent. -/
theorem TurnsBound.idle_found (h : TurnsBound st) {conversation : Conversation}
    (hkeeps : KeepsTurns st (.findEntry i .found))
    (hcall : st.calls[i]? = some ⟨conversation, .admitted⟩) {found : State × Nat}
    (hfound : findOrCreateEntry conversation.sessionId st = found) (a : Nat)
    (hagent : (found.1.entries[found.2]?).bind (·.agent) = some a)
    (hdrains : a ∈ found.1.draining) : found.1.Idle found.2 := by
  subst hfound
  cases hknown : st.sessions.lookup conversation.sessionId with
  | some e =>
      rw [findOrCreateEntry_found hknown] at hagent hdrains ⊢
      exact hkeeps _ hcall e hknown a hagent hdrains
  | none =>
      -- a new entry lies behind those of all turns
      rw [findOrCreateEntry_new hknown]
      intro call hmem hturn
      obtain ⟨⟨_, b⟩, hturn, rfl⟩ := Option.map_eq_some_iff.mp hturn
      obtain ⟨_, hagent⟩ := h call hmem _ b hturn
      rw [List.getElem?_eq_none (Nat.le_refl _)] at hagent
      cases hagent

theorem TurnsBound.findEntry (h : TurnsBound st) {outcome : Lookup}
    (hkeeps : KeepsTurns st (.findEntry i outcome)) (hstep : findEntry i outcome st = some st') :
    TurnsBound st' := by
  obtain ⟨conversation, hcall, ⟨rfl, rfl⟩ | ⟨made, rfl, rfl⟩⟩ := findEntry_spec hstep
  · obtain ⟨hlookup, hcalls, _⟩ := findOrCreateEntry_spec conversation.sessionId st
    have hfound : TurnsBound (findOrCreateEntry conversation.sessionId st).1 :=
      h.lookup conversation.sessionId .found
    have hrebound := hfound.rebind _ (h.idle_found hkeeps hcall rfl)
    have hcall' : (boundState conversation.sessionId st).calls[i]? =
        some ⟨conversation, .admitted⟩ := by
      rw [← hcall, ← hcalls]
      rfl
    obtain ⟨phase, hbind, hphase⟩ := bindCall_spec i conversation.sessionId st
    rw [hbind]
    exact hrebound.bound hcall' hlookup hphase
  · have hleft := h.lookup conversation.sessionId (.throws made)
    intro call hmem j a hturn
    rcases mem_setPhase hmem with hmem | ⟨before, _, rfl⟩
    · exact hleft call hmem j a hturn
    · cases hturn

theorem TurnsBound.addMessage (h : TurnsBound st) {now : Str} {m : Message}
    (hstep : addMessage i now m st = some st') : TurnsBound st' := by
  obtain ⟨conversation, e, a, entry, _, _, rfl⟩ := addMessage_spec hstep
  intro call hcall j b hturn
  obtain ⟨hlookup, hagent⟩ := h call hcall j b hturn
  obtain ⟨entry', hentry', hb⟩ := Option.bind_eq_some_iff.mp hagent
  refine ⟨hlookup, ?_⟩
  rw [recordMessage, getElem?_modifyEntry, hentry', Option.map_some, Option.bind_some]
  split <;> exact hb

theorem TurnsBound.reload (h : TurnsBound st) (newConfig : AgentConfig) (constructed : Bool) :
    TurnsBound (reloadAgent newConfig constructed st) :=
  reloadAgent_keeps h (h.quiet (quiet_hear st false)) fun _ h => h

theorem TurnsBound.arrive (h : TurnsBound st) (conversation : Conversation) :
    TurnsBound (arrive conversation st) := by
  intro call hmem e a hturn
  rcases arrive_calls hmem with hmem | ⟨_, hnone⟩
  · exact h call hmem e a hturn
  · rw [hnone] at hturn
    cases hturn

theorem TurnsBound.eraseEntry (h : TurnsBound st) {k : Nat}
    (hkeeps : KeepsTurns st (.eraseEntry k)) (hstep : eraseEntry k st = some st') :
    TurnsBound st' := by
  obtain ⟨sessionId, dir, hk, rfl⟩ := eraseEntry_spec hstep
  intro call hcall e a hturn
  obtain ⟨hlookup, hagent⟩ := h call hcall e a hturn
  have hid : call.conversation.sessionId ≠ sessionId := by
    intro heq
    rw [heq] at hlookup
    exact (hkeeps _ hk e hlookup).no_turn hcall hturn
  refine ⟨?_, hagent⟩
  rw [State.setRemovalPhase, AList.lookup_erase_ne hid]
  exact hlookup

theorem TurnsBound.step (h : TurnsBound st) {e : Event} (hkeeps : KeepsTurns st e)
    (hstep : step st e = some st') : TurnsBound st' := by
  cases e with
  | restart env config names defaultOutcome =>
      exact restart_keeps (motive := TurnsBound)
        (fun sessionId _ outcome h => h.lookup sessionId outcome) (fun _ h => h) hstep nofun
  | reload newConfig constructed =>
      cases hstep
      exact h.reload newConfig constructed
  | invoke sessionId =>
      cases hstep
      exact h.arrive _
  | invokeChannel channel chatId sessionId =>
      cases hstep
      exact h.arrive _
  | findEntry i outcome => exact h.findEntry hkeeps hstep
  | addMessage i now m => exact h.addMessage hstep
  | getOrCreate sessionId outcome =>
      cases hstep
      exact h.lookup sessionId outcome
  | removeSession sessionId =>
      cases hstep
      unfold checkReserved
      split
      · exact h
      · exact h
  | eraseEntry k => exact h.eraseEntry hkeeps hstep
  | tryLock k =>
      obtain ⟨_, _, _, _, rfl⟩ := tryLock_spec hstep
      exact h
  | deleteDirectory k deletion =>
      obtain ⟨_, _, _, _, rfl⟩ := deleteDirectory_spec hstep
      exact h
  | _ => exact h.quiet (step_quiet hstep rfl)

end

/-! ## Runs -/

/-- A turn keeps its agent in every run in which a session is taken from a draining agent only
while no other call has it. -/
theorem one_turn_one_agent (st : State) (h : Run step KeepsTurns {} st) : st.OneTurnOneAgent :=
  (h.invariant (motive := TurnsBound) nofun
    fun _ _ _ hbound hkeeps hstep => hbound.step hkeeps hstep).oneTurnOneAgent

/-- Two calls of a session, one after the other, with a reload during the first. -/
theorem one_turn_one_agent_next : ∃ st, Run step KeepsTurns {} st ∧
    st.phaseOf 1 = some (.running 1 1) ∧ st.OneTurnOneAgent := by
  obtain ⟨st, hrun, hrunning⟩ := exists_run_of_any step KeepsTurns {}
    (p := fun st => st.phaseOf 1 = some (.running 1 1))
    [.restart ⟨lit "/srv", none⟩ {} [] .found,
      .invoke (lit "s1"), .enterGate 0, .testGate 0, .findEntry 0 .found, .lockTurn 0,
      .reload {} true, .endTurn 0 (.returns []), .releaseGate 0, .finish 0,
      .invoke (lit "s1"), .enterGate 1, .testGate 1, .findEntry 1 .found, .lockTurn 1]
    (by decide +kernel)
  exact ⟨st, hrun, hrunning, one_turn_one_agent st hrun⟩

/-- A second call of the session comes after the reload while the first still runs. -/
theorem turn_rebound : ¬ ∀ st, Run step AnyStep {} st → st.OneTurnOneAgent := by
  intro h
  obtain ⟨st, hrun, hcall, hrebound⟩ := exists_run_of_any step AnyStep {}
    (p := fun st => st.calls[0]? = some ⟨.session (lit "s1"), .running 1 0⟩ ∧
      (st.entries[1]?).bind (·.agent) = some 1)
    [.restart ⟨lit "/srv", none⟩ {} [] .found,
      .invoke (lit "s1"), .enterGate 0, .testGate 0, .findEntry 0 .found, .lockTurn 0,
      .reload {} true,
      .invoke (lit "s1"), .enterGate 1, .testGate 1, .findEntry 1 .found]
    (by decide +kernel)
  have hagent := (h st hrun _ (List.mem_of_getElem? hcall) 1 0 rfl).1
  rw [hrebound] at hagent
  cases hagent

end JiuwenCore.Session
