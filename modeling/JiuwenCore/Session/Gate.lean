import JiuwenCore.Lib.Gate
import JiuwenCore.Session.Steps

/-!
# The concurrency gate of the manager

The manager is a counting gate: every step moves at most one call, and a call moves as a
party does. A call that leaves through an exception nobody catches is lost to the gate.
-/

namespace JiuwenCore.Session

/-! ## The manager as a gate -/

def Phase.station : Phase → Station
  | arrived => .outside
  | testing => .testing
  | waiting heard => .waiting heard
  | admitted => .inside
  | bound _ _ => .inside
  | running _ _ => .inside
  | leaving _ _ => .inside
  | released _ _ => .outside
  | returned _ => .outside
  | thrown => .lost

def State.gate (st : State) : Gate where
  stations := st.calls.map (·.phase.station)
  count := st.concurrentCount
  limit := st.maxConcurrent

/-- What a step is to the gate. -/
def gateEvent (st : State) : Event → Gate.Event
  | .restart _ config _ _ => .reset (limitOf config)
  | .reload newConfig constructed =>
      if st.initialized ∧ constructed then .relimit (limitOf newConfig) else .stay
  | .invoke _ => .join
  | .invokeChannel _ _ _ => .join
  | .enterGate i => if 0 < st.maxConcurrent then .test i else .pass i
  | .testGate i => if st.concurrentCount < st.maxConcurrent then .pass i else .wait i
  | .wake i => .wake i
  | .findEntry i (.throws _) => .lose i
  | .endTurn i .throwsOther => .lose i
  | .releaseGate i => .leave i
  | _ => .stay

section

variable {st st' : State} {i : Nat}

theorem gate_setPhase (phase : Phase) : (st.setPhase i phase).gate =
    { st.gate with stations := st.gate.stations.set i phase.station } := by
  have hstations : ∀ (calls : List Call) (i : Nat),
      (calls.modify i fun call => { call with phase := phase }).map (·.phase.station) =
        (calls.map (·.phase.station)).set i phase.station := by
    intro calls
    induction calls with
    | nil => simp
    | cons call calls ih =>
        intro i
        cases i with
        | zero => simp
        | succ i => simp [ih]
  rw [State.gate, State.setPhase, hstations]
  rfl

theorem station_of_phase {phase : Phase} (h : st.phaseOf i = some phase) :
    st.gate.stations[i]? = some phase.station := by
  obtain ⟨conversation, hcall⟩ := phaseOf_eq_some.mp h
  rw [State.gate, List.getElem?_map, hcall]
  rfl

/-- A call that moves within a station is nothing to the gate. -/
theorem gate_setPhase_same {before phase : Phase} (h : st.phaseOf i = some before)
    (hstation : phase.station = before.station) : (st.setPhase i phase).gate = st.gate := by
  obtain ⟨hi, hbefore⟩ := List.getElem?_eq_some_iff.mp (station_of_phase h)
  rw [gate_setPhase, hstation, ← hbefore, List.set_getElem_self]

theorem stations_hear (calls : List Call) (heard : Bool) :
    (calls.map (Call.hear heard)).map (·.phase.station) =
      (calls.map (·.phase.station)).map (Station.hear heard) := by
  rw [List.map_map, List.map_map]
  refine List.map_congr_left fun call _ => ?_
  obtain ⟨conversation, phase⟩ := call
  cases phase <;> rfl

theorem gate_lookupEntry (sessionId : Str) (st : State) (outcome : Lookup) :
    (lookupEntry sessionId st outcome).gate = st.gate :=
  lookupEntry_keeps (motive := fun st' => st'.gate = st.gate) outcome rfl (fun _ => rfl)
    (fun _ => rfl)

/-! ## The steps of a call -/

theorem enterGate_gate (h : enterGate i st = some st') :
    Gate.Step st.gate (gateEvent st (.enterGate i)) st'.gate := by
  obtain ⟨⟨hphase, _⟩, h⟩ := Option.ite_none_right_eq_some.mp h
  have hi := station_of_phase hphase
  split at h
  · rename_i hlimit
    cases h
    rw [gateEvent, if_pos hlimit, gate_setPhase]
    exact .test hi hlimit
  · rename_i hlimit
    cases h
    rw [gateEvent, if_neg hlimit, gate_setPhase]
    exact .enter hi (Nat.eq_zero_of_not_pos hlimit)

theorem testGate_gate (h : testGate i st = some st') :
    Gate.Step st.gate (gateEvent st (.testGate i)) st'.gate := by
  obtain ⟨hphase, h⟩ := Option.ite_none_right_eq_some.mp h
  have hi := station_of_phase hphase
  split at h
  · rename_i hroom
    cases h
    rw [gateEvent, if_pos hroom, gate_setPhase]
    exact .pass hi hroom
  · rename_i hfull
    cases h
    rw [gateEvent, if_neg hfull, gate_setPhase]
    exact .wait hi (Nat.le_of_not_lt hfull)

theorem wake_gate (h : wake i st = some st') : Gate.Step st.gate (.wake i) st'.gate := by
  unfold wake at h
  split at h
  · rename_i hphase
    obtain ⟨_, h⟩ := Option.ite_none_right_eq_some.mp h
    cases h
    rw [gate_setPhase]
    exact .wake (station_of_phase hphase)
  · cases h

theorem gate_modifyEntry (e : Nat) (f : SessionEntry → SessionEntry) :
    (st.modifyEntry e f).gate = st.gate := rfl

theorem bindCall_gate (sessionId : Str) (h : st.phaseOf i = some .admitted) :
    (bindCall i sessionId st).gate = st.gate := by
  have hfound := gate_lookupEntry sessionId st .found
  have hphase : (findOrCreateEntry sessionId st).1.phaseOf i = some .admitted := by
    unfold findOrCreateEntry
    split <;> exact h
  unfold bindCall
  dsimp only
  split
  · exact Eq.trans (gate_setPhase_same hphase rfl) hfound
  · exact Eq.trans (gate_setPhase_same hphase rfl) hfound

theorem findEntry_gate {outcome : Lookup} (h : findEntry i outcome st = some st') :
    Gate.Step st.gate (gateEvent st (.findEntry i outcome)) st'.gate := by
  unfold findEntry at h
  split at h
  · rename_i conversation hcall
    have hphase : st.phaseOf i = some .admitted := phaseOf_eq_some.mpr ⟨_, hcall⟩
    cases outcome with
    | found =>
        cases h
        rw [bindCall_gate _ hphase]
        exact .stay
    | throws made =>
        cases h
        have hfound := gate_lookupEntry conversation.sessionId st (.throws made)
        rw [gate_setPhase, show (abandonEntry conversation.sessionId made st).gate = st.gate from
          hfound]
        exact .lose (station_of_phase hphase)
  · cases h

theorem lockTurn_gate (h : lockTurn i st = some st') : st'.gate = st.gate := by
  unfold lockTurn at h
  split at h
  · rename_i e a hphase
    obtain ⟨_, h⟩ := Option.ite_none_right_eq_some.mp h
    cases h
    exact gate_setPhase_same hphase rfl
  · cases h

theorem addMessage_gate {now : Str} {m : Message} (h : addMessage i now m st = some st') :
    st'.gate = st.gate := by
  unfold addMessage at h
  split at h
  · obtain ⟨entry, _, rfl⟩ := Option.map_eq_some_iff.mp h
    rfl
  · cases h

theorem endTurn_gate {outcome : TurnEnd} (h : endTurn i outcome st = some st') :
    Gate.Step st.gate (gateEvent st (.endTurn i outcome)) st'.gate := by
  unfold endTurn at h
  split at h
  · rename_i conversation e a hcall
    have hphase : st.phaseOf i = some (.running e a) := phaseOf_eq_some.mpr ⟨_, hcall⟩
    have hleaving : ∀ result, (st.setPhase i (.leaving (some e) result)).gate = st.gate :=
      fun result => gate_setPhase_same hphase rfl
    cases outcome with
    | returns text =>
        cases h
        exact (hleaving _).symm ▸ .stay
    | throwsStd what =>
        cases h
        exact (hleaving _).symm ▸ .stay
    | throwsOther =>
        cases h
        rw [gate_setPhase]
        exact .lose (station_of_phase hphase)
  · cases h

theorem releaseGate_gate (h : releaseGate i st = some st') :
    Gate.Step st.gate (.leave i) st'.gate := by
  unfold releaseGate at h
  split at h
  · rename_i entry result hphase
    obtain ⟨_, h⟩ := Option.ite_none_right_eq_some.mp h
    cases h
    have hheard : State.gate
        { st with
          concurrentCount := st.concurrentCount - 1
          calls := st.calls.map (Call.hear true) } =
        { st.gate with
          stations := st.gate.stations.map (Station.hear true)
          count := st.gate.count - 1 } := by
      simp only [State.gate, stations_hear]
    rw [gate_setPhase, hheard]
    exact .leave (station_of_phase hphase)
  · cases h

theorem finish_gate (h : finish i st = some st') : st'.gate = st.gate := by
  unfold finish at h
  split at h
  · rename_i entry result hphase
    cases h
    cases entry with
    | none => exact gate_setPhase_same hphase rfl
    | some e => exact Eq.trans (gate_setPhase_same hphase rfl) (gate_modifyEntry e _)
  · cases h

end

/-! ## The simulation -/

theorem reload_gate (newConfig : AgentConfig) (constructed : Bool) (st : State) :
    Gate.Step st.gate (gateEvent st (.reload newConfig constructed))
      (reloadAgent newConfig constructed st).gate := by
  by_cases hready : st.initialized ∧ constructed
  · have hrelimit : Gate.Step st.gate (.relimit (limitOf newConfig))
        (st.gate.relimit (limitOf newConfig)) := .relimit _
    have hgate : (reloadAgent newConfig constructed st).gate =
        st.gate.relimit (limitOf newConfig) := by
      rw [reloadAgent, if_pos hready]
      dsimp only
      split
      · rename_i hopened
        refine Eq.trans ?_ (if_pos hopened).symm
        simp only [State.gate, stations_hear]
      · rename_i hsame
        exact (if_neg hsame).symm
    rw [gateEvent, if_pos hready, hgate]
    exact hrelimit
  · rw [gateEvent, if_neg hready, reloadAgent, if_neg hready]
    exact .stay

theorem restart_gate {env : Env} {config : AgentConfig} {names : List (Str × Lookup)}
    {defaultOutcome : Lookup} {st st' : State}
    (h : restart env config names defaultOutcome st = some st') :
    st'.gate = { limit := limitOf config } :=
  restart_keeps (motive := fun st => st.gate = { limit := limitOf config })
    (fun sessionId st outcome hgate => (gate_lookupEntry sessionId st outcome).trans hgate)
    (fun _ hgate => hgate) h rfl

theorem arrive_gate (conversation : Conversation) (st : State) :
    Gate.Step st.gate .join (arrive conversation st).gate := by
  have hgate : (arrive conversation st).gate =
      { st.gate with stations := st.gate.stations ++ [.outside] } := by
    rw [State.gate, arrive, List.map_append]
    dsimp only
    split <;> rfl
  rw [hgate]
  exact .join

/-- Every step of the manager is one of the gate. -/
theorem step_gate {st st' : State} {e : Event} (h : step st e = some st') :
    Gate.Step st.gate (gateEvent st e) st'.gate := by
  cases e with
  | restart env config names defaultOutcome =>
      rw [restart_gate h]
      exact .reset _
  | reload newConfig constructed =>
      cases h
      exact reload_gate newConfig constructed st
  | register id =>
      cases h
      unfold registerReservedSession
      split
      · exact .stay
      · exact .stay
  | invoke sessionId =>
      cases h
      exact arrive_gate _ st
  | invokeChannel channel chatId sessionId =>
      cases h
      exact arrive_gate _ st
  | enterGate i => exact enterGate_gate h
  | testGate i => exact testGate_gate h
  | wake i => exact wake_gate h
  | findEntry i outcome => exact findEntry_gate h
  | lockTurn i =>
      rw [lockTurn_gate h]
      exact .stay
  | addMessage i now m =>
      rw [addMessage_gate h]
      exact .stay
  | endTurn i outcome => exact endTurn_gate h
  | releaseGate i => exact releaseGate_gate h
  | finish i =>
      rw [finish_gate h]
      exact .stay
  | getOrCreate sessionId outcome =>
      cases h
      rw [gate_lookupEntry]
      exact .stay
  | removeSession sessionId =>
      cases h
      unfold checkReserved
      split
      · exact .stay
      · exact .stay
  | eraseEntry k =>
      obtain ⟨_, _, _, rfl⟩ := eraseEntry_spec h
      exact .stay
  | tryLock k =>
      obtain ⟨_, _, _, _, rfl⟩ := tryLock_spec h
      exact .stay
  | deleteDirectory k deletion =>
      obtain ⟨_, _, _, _, rfl⟩ := deleteDirectory_spec h
      exact .stay

/-! ## Slots -/

/-- The number of calls that have passed the gate and have not left. -/
def State.passed (st : State) : Nat :=
  st.calls.countP fun call => Gate.isInside call.phase.station

/-- An exception leaves `Invoke` that no handler there catches. -/
def Event.escapes : Event → Bool
  | findEntry _ (.throws _) => true
  | endTurn _ .throwsOther => true
  | _ => false

theorem gateEvent_of_caught {st : State} {e : Event} (h : e.escapes = false) (i : Nat) :
    gateEvent st e ≠ .lose i := by
  cases e with
  | reload newConfig constructed =>
      rw [gateEvent]
      split <;> exact nofun
  | enterGate j =>
      rw [gateEvent]
      split <;> exact nofun
  | testGate j =>
      rw [gateEvent]
      split <;> exact nofun
  | findEntry j outcome =>
      cases outcome with
      | found => exact nofun
      | throws made => cases h
  | endTurn j outcome =>
      cases outcome with
      | throwsOther => cases h
      | _ => exact nofun
  | _ => exact nofun

theorem counted_run {ok : State → Event → Prop} {st : State} (h : Run step ok {} st) :
    st.gate.Counted :=
  h.invariant (motive := fun st => st.gate.Counted) rfl
    fun _ _ _ hcount _ hstep => (step_gate hstep).counted hcount

theorem lost_mem_iff (st : State) :
    .lost ∈ st.gate.stations ↔ ∃ call ∈ st.calls, call.phase = .thrown := by
  have hlost : ∀ phase : Phase, phase.station = .lost ↔ phase = .thrown := by
    intro phase
    cases phase <;> simp [Phase.station]
  simp only [State.gate, List.mem_map, hlost]

theorem count_eq_passed_iff {ok : State → Event → Prop} {st : State} (h : Run step ok {} st) :
    st.concurrentCount = st.passed ↔ ¬ ∃ call ∈ st.calls, call.phase = .thrown := by
  have hinside : st.gate.stations.countP Gate.isInside = st.passed := List.countP_map ..
  rw [← hinside, ← lost_mem_iff]
  exact (counted_run h).count_eq_iff

/-- Every way out of `Invoke` gives the slot back, except for an exception that leaves it: the
count is that of the calls that have passed the gate and have not left, along every run
without such an exception, and in any run as long as no call has been lost to one. -/
theorem slots_given_back_iff (st : State) :
    (Run step (fun _ e => e.escapes = false) {} st → st.concurrentCount = st.passed) ∧
      (Run step AnyStep {} st →
        (st.concurrentCount = st.passed ↔ ¬ ∃ call ∈ st.calls, call.phase = .thrown)) := by
  refine ⟨fun h => (count_eq_passed_iff h).mpr ?_, count_eq_passed_iff⟩
  rw [← lost_mem_iff]
  exact h.invariant (motive := fun st => .lost ∉ st.gate.stations) List.not_mem_nil
    fun st e st' hnone hcaught hstep =>
      (step_gate hstep).none_lost (gateEvent_of_caught hcaught) hnone

/-- A turn with an exception of its agent, and another call at the gate. -/
theorem slots_given_back_turn : ∃ st, Run step (fun _ e => e.escapes = false) {} st ∧
    st.phaseOf 1 = some .testing ∧ st.concurrentCount = st.passed := by
  obtain ⟨st, hrun, htesting⟩ := exists_run_of_any step
    (fun _ e => e.escapes = false) {} (p := fun st => st.phaseOf 1 = some .testing)
    [.restart ⟨lit "/srv", none⟩ {} [] .found, .invoke (lit "s1"), .enterGate 0, .testGate 0,
      .findEntry 0 .found, .lockTurn 0, .endTurn 0 (.throwsStd (lit "timeout")),
      .invoke (lit "s2"), .enterGate 1]
    (by decide +kernel)
  exact ⟨st, hrun, htesting, (slots_given_back_iff st).1 hrun⟩

/-- The slot of a call whose entry cannot be created is never given back. -/
theorem slot_kept : ¬ ∀ st, Run step AnyStep {} st → st.concurrentCount = st.passed := by
  intro h
  obtain ⟨st, hrun, hkept⟩ := exists_run_of_any step AnyStep {}
    (p := fun st => st.concurrentCount ≠ st.passed)
    [.restart ⟨lit "/srv", none⟩ {} [] .found, .invoke (lit "s1"), .enterGate 0, .testGate 0,
      .findEntry 0 (.throws false)]
    (by decide +kernel)
  exact hkept (h st hrun)

/-! ## Waiting calls -/

def Phase.waits : Phase → Bool
  | waiting _ => true
  | _ => false

/-- While another call could pass, what the waiting calls wait for is true, and they have
been notified since it became so. -/
def State.NoneStranded (st : State) : Prop :=
  st.GateFree → ∀ call ∈ st.calls, ∀ heard, call.phase = .waiting heard →
    st.concurrentCount < st.maxConcurrent ∧ heard = true

/-- A reload does not disable the limit while a call is on its way through a limited gate, and
does not raise the limit of a full gate while a call waits there. -/
def LeavesNobody (st : State) : Event → Prop
  | .reload newConfig constructed =>
      st.initialized → constructed →
        (limitOf newConfig = 0 → ∀ call ∈ st.calls, call.phase.station.seeks = false) ∧
        (st.concurrentCount < limitOf newConfig → ¬ st.GateFree →
          ∀ call ∈ st.calls, call.phase.waits = false)
  | _ => True

instance (st : State) (e : Event) : Decidable (LeavesNobody st e) := by
  cases e <;> unfold LeavesNobody <;> infer_instance

theorem gentle_of_leavesNobody {st : State} {e : Event} (h : LeavesNobody st e) :
    Gate.Gentle st.gate (gateEvent st e) := by
  cases e with
  | reload newConfig constructed =>
      rw [gateEvent]
      split
      · rename_i hready
        obtain ⟨hdisabled, hraised⟩ := h hready.1 hready.2
        refine ⟨fun hzero station hmem => ?_, fun hroom hfull heard hmem => ?_⟩
        · obtain ⟨call, hcall, rfl⟩ := List.mem_map.mp hmem
          exact hdisabled hzero call hcall
        · obtain ⟨call, hcall, hstation⟩ := List.mem_map.mp hmem
          have hwaits := hraised hroom hfull call hcall
          cases hphase : call.phase <;> rw [hphase] at hstation hwaits <;> cases hstation
          cases hwaits
      · trivial
  | enterGate i =>
      rw [gateEvent]
      split <;> trivial
  | testGate i =>
      rw [gateEvent]
      split <;> trivial
  | findEntry i outcome => cases outcome <;> trivial
  | endTurn i outcome => cases outcome <;> trivial
  | _ => trivial

/-- Reloads that leave nobody behind strand nobody, in any run. -/
theorem none_stranded_of_leavesNobody (st : State) (h : Run step LeavesNobody {} st) :
    st.NoneStranded := by
  have hawake : st.gate.Awake :=
    h.invariant (motive := fun st => st.gate.Awake) ⟨nofun, nofun⟩
      fun st e st' hawake hok hstep =>
        (step_gate hstep).awake (gentle_of_leavesNobody hok) hawake
  intro hfree call hcall heard hwaiting
  have hmem : .waiting heard ∈ st.gate.stations := by
    refine List.mem_map.mpr ⟨call, hcall, ?_⟩
    rw [hwaiting]
    rfl
  exact hawake.passes hfree hmem

/-- The limit is raised while nobody waits, and a call that waits later is woken by the end of
another one. -/
theorem none_stranded_woken : ∃ st, Run step LeavesNobody {} st ∧
    (st.GateFree ∧ st.phaseOf 2 = some (.waiting true)) ∧ st.NoneStranded := by
  obtain ⟨st, hrun, hwoken⟩ := exists_run_of_any step LeavesNobody {}
    (p := fun st => st.GateFree ∧ st.phaseOf 2 = some (.waiting true))
    [.restart ⟨lit "/srv", none⟩ { maxConcurrentSessions := 1 } [] .found,
      .invoke (lit "s1"), .enterGate 0, .testGate 0,
      .reload { maxConcurrentSessions := 2 } true,
      .invoke (lit "s2"), .enterGate 1, .testGate 1,
      .invoke (lit "s3"), .enterGate 2, .testGate 2,
      .findEntry 0 .found, .lockTurn 0, .endTurn 0 (.returns []), .releaseGate 0]
    (by decide +kernel)
  exact ⟨st, hrun, hwoken, none_stranded_of_leavesNobody st hrun⟩

/-- One call holds the only slot and another one waits; then the limit is raised to two. -/
theorem waiter_stranded : ¬ ∀ st, Run step AnyStep {} st → st.NoneStranded := by
  intro h
  obtain ⟨st, hrun, hfree, hwaiting⟩ := exists_run_of_any step AnyStep {}
    (p := fun st => st.GateFree ∧ st.phaseOf 1 = some (.waiting false))
    [.restart ⟨lit "/srv", none⟩ { maxConcurrentSessions := 1 } [] .found,
      .invoke (lit "s1"), .enterGate 0, .testGate 0,
      .invoke (lit "s2"), .enterGate 1, .testGate 1,
      .reload { maxConcurrentSessions := 2 } true]
    (by decide +kernel)
  obtain ⟨conversation, hcall⟩ := phaseOf_eq_some.mp hwaiting
  have hheard := (h st hrun hfree _ (List.mem_of_getElem? hcall) false rfl).2
  cases hheard

end JiuwenCore.Session
