import JiuwenCore.Lib.Runs
import JiuwenCore.Text
import Mathlib.Data.List.AList

/-!
# The consolidation loop

`Agent::ConsolidationLoop` wakes up from time to time and passes two gates before it tries a
consolidation: some session is idle, and a turn has ended since the flag was cleared. The first
cycle passes neither. Turns, the removal of sessions and the loop run at the same time, and a
pass may leave any of the events behind.
-/

namespace JiuwenCore.Consolidation

/-- A turn and its session. -/
structure Turn where
  id : Nat
  sessionId : Str
  deriving DecidableEq, Repr

inductive LoopStage where
  | waiting (firstCycle : Bool)
  /-- Some session was idle, the flag is not read yet. -/
  | idleSeen
  /-- Behind the gates, the flag is not cleared yet. -/
  | attempting
  | consolidating
  deriving DecidableEq, Repr

structure Agent where
  excludedConsolidationSessionIds : List Str := []
  /-- `isBusy` of the sessions. -/
  sessionActivity : AList (fun _ : Str => Bool) := ∅
  hasNewActivity : Bool := false
  stage : LoopStage := .waiting true
  /-- How many turns have started, and those that still run. -/
  started : Nat := 0
  running : List Turn := []
  /-- The unprocessed events in the order of the cursor, each as the turn that added it. -/
  unprocessed : List Turn := []

namespace Agent

def notifySessionActive (sessionId : Str) (a : Agent) : Agent :=
  { a with sessionActivity := a.sessionActivity.insert sessionId true }

def notifySessionIdle (sessionId : Str) (a : Agent) : Agent :=
  let a := match a.sessionActivity.lookup sessionId with
    | some _ => { a with sessionActivity := a.sessionActivity.insert sessionId false }
    | none => a
  if sessionId ∈ a.excludedConsolidationSessionIds then a else { a with hasNewActivity := true }

def cleanupSession (sessionId : Str) (a : Agent) : Agent :=
  { a with sessionActivity := a.sessionActivity.erase sessionId }

/-- The gate of `ConsolidationLoop` on the sessions. -/
def anyIdle (a : Agent) : Bool := a.sessionActivity.entries.any fun entry => !entry.2

end Agent

inductive Event where
  | startTurn (sessionId : Str)
  /-- The turn adds an event to the memory store. -/
  | addMessage (i : Nat)
  | endTurn (i : Nat)
  | cleanupSession (sessionId : Str)
  /-- `wait_for` returns, and the loop looks for an idle session. -/
  | timeout
  | readFlag
  | clearFlag
  /-- The pass returns or throws, and has processed so many events. -/
  | endPass (processed : Nat)
  deriving DecidableEq, Repr

def step (a : Agent) : Event → Option Agent
  | .startTurn sessionId =>
      some { a.notifySessionActive sessionId with
        started := a.started + 1
        running := a.running ++ [⟨a.started, sessionId⟩] }
  | .addMessage i =>
      a.running[i]?.map fun turn => { a with unprocessed := a.unprocessed ++ [turn] }
  | .endTurn i =>
      a.running[i]?.map fun turn =>
        { a.notifySessionIdle turn.sessionId with running := a.running.eraseIdx i }
  | .cleanupSession sessionId => some (a.cleanupSession sessionId)
  | .timeout =>
      match a.stage with
      | .waiting firstCycle =>
          if firstCycle then some { a with stage := .attempting }
          else if a.anyIdle then some { a with stage := .idleSeen }
          else some { a with stage := .waiting false }
      | _ => none
  | .readFlag =>
      if a.stage = .idleSeen then
        some { a with stage := if a.hasNewActivity then .attempting else .waiting false }
      else none
  | .clearFlag =>
      if a.stage = .attempting then
        some { a with hasNewActivity := false, stage := .consolidating }
      else none
  | .endPass processed =>
      if a.stage = .consolidating ∧ processed ≤ a.unprocessed.length then
        some { a with
          unprocessed := a.unprocessed.drop processed
          stage := .waiting false }
      else none

/-! ## What is left to do -/

namespace Agent

/-- Unprocessed events remain of a turn that has ended and whose session is not excluded. -/
def Left (a : Agent) : Prop :=
  ∃ turn ∈ a.unprocessed, turn ∉ a.running ∧ turn.sessionId ∉ a.excludedConsolidationSessionIds

/-- A turn runs whose session is not excluded. -/
def Talking (a : Agent) : Prop :=
  ∃ turn ∈ a.running, turn.sessionId ∉ a.excludedConsolidationSessionIds

/-- Events are left, or may be when the turns have ended. -/
def HasWork (a : Agent) : Prop := a.Left ∨ a.Talking

/-- The loop is before the gates, or about to come back there. -/
def Polling (a : Agent) : Prop :=
  a.stage = .waiting false ∨ a.stage = .idleSeen ∧ a.hasNewActivity = false

instance (a : Agent) : Decidable a.Left := inferInstanceAs (Decidable (∃ turn ∈ _, _ ∧ _))
instance (a : Agent) : Decidable a.Talking := inferInstanceAs (Decidable (∃ turn ∈ _, _))
instance (a : Agent) : Decidable a.HasWork := inferInstanceAs (Decidable (_ ∨ _))
instance (a : Agent) : Decidable a.Polling := inferInstanceAs (Decidable (_ ∨ _ ∧ _))

/-- While no turn runs and events are left, neither gate sends the loop back to wait. -/
def Attends (a : Agent) : Prop :=
  a.running = [] → a.Left → ∀ e, e = Event.timeout ∨ e = Event.readFlag →
    ∀ a', step a e = some a' → a'.stage = .idleSeen ∨ a'.stage = .attempting

/-- Both gates will be open when the turns have ended. -/
def Armed (a : Agent) : Prop :=
  a.sessionActivity.keys ≠ [] ∧ (a.hasNewActivity = true ∨ a.Talking)

instance (a : Agent) : Decidable a.Armed := inferInstanceAs (Decidable (_ ∧ _))

end Agent

/-- A pass that leaves work leaves the gates armed; a session that is removed while the loop
waits is not the last one if there is work. -/
def Keeps (a : Agent) : Event → Prop
  | .endPass processed =>
      { a with unprocessed := a.unprocessed.drop processed }.HasWork → a.Armed
  | .cleanupSession sessionId =>
      a.Polling → a.HasWork → ∃ other ∈ a.sessionActivity.keys, other ≠ sessionId
  | _ => True

instance (a : Agent) (e : Event) : Decidable (Keeps a e) := by
  cases e <;> unfold Keeps <;> infer_instance

/-- A new agent has any events of earlier agents before it. -/
structure New (a : Agent) : Prop where
  sessionActivity : a.sessionActivity = ∅
  stage : a.stage = .waiting true
  running : a.running = []

/-- A busy session has a turn, and while the loop is before the gates they are armed for the
work. -/
structure Ready (a : Agent) : Prop where
  busy : ∀ sessionId, a.sessionActivity.lookup sessionId = some true →
    ∃ turn ∈ a.running, turn.sessionId = sessionId
  armed : a.Polling → a.HasWork → a.Armed

variable {a a' : Agent}

/-! ## Turns -/

namespace Agent

theorem notifySessionIdle_keys (sessionId : Str) (a : Agent) :
    (a.notifySessionIdle sessionId).sessionActivity.keys ≠ [] ↔ a.sessionActivity.keys ≠ [] := by
  unfold notifySessionIdle
  cases h : a.sessionActivity.lookup sessionId with
  | none =>
      dsimp only
      split <;> rfl
  | some busy =>
      have hmem : sessionId ∈ a.sessionActivity.keys := by
        apply AList.mem_keys.mp
        exact AList.lookup_isSome.mp (h ▸ rfl)
      have hne : a.sessionActivity.keys ≠ [] := List.ne_nil_of_mem hmem
      dsimp only
      split
      all_goals
        rw [AList.keys_insert]
        exact iff_of_true (List.cons_ne_nil _ _) hne

theorem notifySessionIdle_busy {sessionId other : Str}
    (h : (a.notifySessionIdle sessionId).sessionActivity.lookup other = some true) :
    other ≠ sessionId ∧ a.sessionActivity.lookup other = some true := by
  have hsame : (a.notifySessionIdle sessionId).sessionActivity =
      match a.sessionActivity.lookup sessionId with
      | some _ => a.sessionActivity.insert sessionId false
      | none => a.sessionActivity := by
    unfold notifySessionIdle
    cases a.sessionActivity.lookup sessionId <;> dsimp only <;> split <;> rfl
  rw [hsame] at h
  cases hlookup : a.sessionActivity.lookup sessionId with
  | none =>
      rw [hlookup] at h
      refine ⟨?_, h⟩
      rintro rfl
      rw [hlookup] at h
      cases h
  | some busy =>
      rw [hlookup] at h
      by_cases hother : other = sessionId
      · rw [hother, AList.lookup_insert] at h
        cases h
      · rw [AList.lookup_insert_ne hother] at h
        exact ⟨hother, h⟩

theorem notifySessionIdle_flag (a : Agent) (sessionId : Str) :
    (a.notifySessionIdle sessionId).hasNewActivity =
      (a.hasNewActivity || decide (sessionId ∉ a.excludedConsolidationSessionIds)) := by
  unfold notifySessionIdle
  cases a.sessionActivity.lookup sessionId <;> dsimp only <;> split <;> simp [*]

/-- `NotifySessionIdle` changes the flag and the busy mark only. -/
theorem notifySessionIdle_rest (sessionId : Str) (a : Agent) :
    a.notifySessionIdle sessionId =
      { a with
        sessionActivity := (a.notifySessionIdle sessionId).sessionActivity
        hasNewActivity := (a.notifySessionIdle sessionId).hasNewActivity } := by
  unfold notifySessionIdle
  cases a.sessionActivity.lookup sessionId <;> dsimp only <;> split <;> rfl

end Agent

/-! ## One step -/

theorem Agent.anyIdle_of_running (hbusy : ∀ sessionId,
      a.sessionActivity.lookup sessionId = some true → ∃ turn ∈ a.running, turn.sessionId = sessionId)
    (hrunning : a.running = []) (hkeys : a.sessionActivity.keys ≠ []) : a.anyIdle = true := by
  obtain ⟨sessionId, hmem⟩ := List.exists_mem_of_ne_nil _ hkeys
  have hlookup := AList.lookup_isSome.mpr (AList.mem_keys.mpr hmem)
  obtain ⟨busy, hbusy'⟩ := Option.isSome_iff_exists.mp hlookup
  apply List.any_eq_true.mpr
  refine ⟨⟨sessionId, busy⟩, AList.mem_lookup_iff.mp hbusy', ?_⟩
  cases busy with
  | false => rfl
  | true =>
      obtain ⟨turn, hturn, _⟩ := hbusy sessionId hbusy'
      rw [hrunning] at hturn
      cases hturn

theorem New.ready (h : New a) : Ready a where
  busy sessionId hlookup := by
    rw [h.sessionActivity, AList.lookup_empty] at hlookup
    cases hlookup
  armed hpolling := by
    unfold Agent.Polling at hpolling
    rw [h.stage] at hpolling
    rcases hpolling with hstage | ⟨hstage, _⟩
    · cases hstage
    · cases hstage

/-- A turn begins: its session is in the map, and the turn will set the flag. -/
theorem Ready.startTurn (h : Ready a) (sessionId : Str) :
    Ready { a.notifySessionActive sessionId with
      started := a.started + 1
      running := a.running ++ [⟨a.started, sessionId⟩] } where
  busy other hlookup := by
    by_cases hother : other = sessionId
    · exact ⟨⟨a.started, sessionId⟩, List.mem_append_right _ (List.mem_singleton.mpr rfl),
        hother.symm⟩
    · rw [Agent.notifySessionActive, AList.lookup_insert_ne hother] at hlookup
      obtain ⟨turn, hturn, hsession⟩ := h.busy other hlookup
      exact ⟨turn, List.mem_append_left _ hturn, hsession⟩
  armed hpolling hwork := by
    constructor
    · rw [Agent.notifySessionActive, AList.keys_insert]
      exact List.cons_ne_nil _ _
    · rcases hwork with ⟨turn, hturn, hended, hsession⟩ | htalking
      · have hleft : a.Left :=
          ⟨turn, hturn, fun hrunning => hended (List.mem_append_left _ hrunning), hsession⟩
        rcases (h.armed hpolling (.inl hleft)).2 with hflag | ⟨other, hother, hexcluded⟩
        · exact .inl hflag
        · exact .inr ⟨other, List.mem_append_left _ hother, hexcluded⟩
      · exact .inr htalking

theorem Ready.addMessage (h : Ready a) {i : Nat} {turn : Turn} (hi : a.running[i]? = some turn) :
    Ready { a with unprocessed := a.unprocessed ++ [turn] } where
  busy := h.busy
  armed hpolling hwork := by
    apply h.armed hpolling
    rcases hwork with ⟨other, hother, hended, hsession⟩ | htalking
    · left
      refine ⟨other, ?_, hended, hsession⟩
      rcases List.mem_append.mp hother with hother | hother
      · exact hother
      · rw [List.mem_singleton.mp hother] at hended
        exact absurd (List.mem_of_getElem? hi) hended
    · exact .inr htalking

/-- A turn ends: if its session is not excluded, the flag is set. -/
theorem Ready.endTurn (h : Ready a) {i : Nat} {turn : Turn} (hi : a.running[i]? = some turn) :
    Ready { a.notifySessionIdle turn.sessionId with running := a.running.eraseIdx i } where
  busy other hlookup := by
    rcases Agent.notifySessionIdle_busy hlookup with ⟨hother, hbefore⟩
    obtain ⟨t, ht, rfl⟩ := h.busy other hbefore
    refine ⟨t, ?_, rfl⟩
    obtain ⟨j, hj⟩ := List.mem_iff_getElem?.mp ht
    refine List.mem_eraseIdx_iff_getElem?.mpr ⟨j, ?_, hj⟩
    rintro rfl
    rw [hi] at hj
    cases hj
    exact hother rfl
  armed hpolling hwork := by
    rw [Agent.notifySessionIdle_rest] at hpolling hwork
    have hflag := Agent.notifySessionIdle_flag a turn.sessionId
    have hpolling' : a.Polling := by
      rcases hpolling with hstage | ⟨hstage, hclear⟩
      · exact .inl hstage
      · dsimp only at hclear
        rw [hflag, Bool.or_eq_false_iff] at hclear
        exact .inr ⟨hstage, hclear.1⟩
    have hwork' : a.HasWork := by
      rcases hwork with ⟨other, hother, hended, hsession⟩ | ⟨other, hother, hsession⟩
      · by_cases hrunning : other ∈ a.running
        · exact .inr ⟨other, hrunning, hsession⟩
        · exact .inl ⟨other, hother, hrunning, hsession⟩
      · exact .inr ⟨other, List.mem_of_mem_eraseIdx hother, hsession⟩
    rcases h.armed hpolling' hwork' with ⟨hkeys, hset⟩
    refine ⟨(Agent.notifySessionIdle_keys _ _).mpr hkeys, ?_⟩
    rw [Agent.notifySessionIdle_rest]
    dsimp only
    rw [hflag]
    by_cases hexcluded : turn.sessionId ∈ a.excludedConsolidationSessionIds
    · rcases hset with hset | ⟨other, hother, hsession⟩
      · left
        rw [hset]
        rfl
      · right
        refine ⟨other, ?_, hsession⟩
        obtain ⟨j, hj⟩ := List.mem_iff_getElem?.mp hother
        refine List.mem_eraseIdx_iff_getElem?.mpr ⟨j, ?_, hj⟩
        rintro rfl
        rw [hi] at hj
        cases hj
        exact hsession hexcluded
    · left
      rw [decide_eq_true hexcluded, Bool.or_true]

theorem Ready.cleanupSession (h : Ready a) {sessionId : Str}
    (hok : Keeps a (.cleanupSession sessionId)) : Ready (a.cleanupSession sessionId) where
  busy other hlookup := by
    by_cases hother : other = sessionId
    · rw [hother, Agent.cleanupSession, AList.lookup_erase] at hlookup
      cases hlookup
    · rw [Agent.cleanupSession, AList.lookup_erase_ne hother] at hlookup
      exact h.busy other hlookup
  armed hpolling hwork := by
    obtain ⟨other, hmem, hother⟩ := hok hpolling hwork
    refine ⟨?_, (h.armed hpolling hwork).2⟩
    have hkept : other ∈ (a.cleanupSession sessionId).sessionActivity :=
      AList.mem_erase.mpr ⟨hother, AList.mem_keys.mpr hmem⟩
    exact List.ne_nil_of_mem (AList.mem_keys.mp hkept)

theorem Ready.step (h : Ready a) {e : Event} (hok : Keeps a e)
    (hstep : Consolidation.step a e = some a') : Ready a' := by
  cases e with
  | startTurn sessionId =>
      cases hstep
      exact h.startTurn sessionId
  | addMessage i =>
      obtain ⟨turn, hi, rfl⟩ := Option.map_eq_some_iff.mp hstep
      exact h.addMessage hi
  | endTurn i =>
      obtain ⟨turn, hi, rfl⟩ := Option.map_eq_some_iff.mp hstep
      exact h.endTurn hi
  | cleanupSession sessionId =>
      cases hstep
      exact h.cleanupSession hok
  | timeout =>
      simp only [Consolidation.step] at hstep
      split at hstep
      · rename_i firstCycle hstage
        split at hstep
        · cases hstep
          exact ⟨h.busy, fun hpolling => by rcases hpolling with hs | ⟨hs, _⟩ <;> cases hs⟩
        · rename_i hfirst
          have hpolling : a.Polling := by
            rw [Bool.not_eq_true] at hfirst
            exact .inl (hfirst ▸ hstage)
          split at hstep
          all_goals
            cases hstep
            exact ⟨h.busy, fun _ => h.armed hpolling⟩
      · cases hstep
  | readFlag =>
      simp only [Consolidation.step] at hstep
      split at hstep
      · rename_i hstage
        cases hstep
        refine ⟨h.busy, fun hpolling => ?_⟩
        by_cases hflag : a.hasNewActivity = true
        · unfold Agent.Polling at hpolling
          simp [hflag] at hpolling
        · rw [Bool.not_eq_true] at hflag
          exact h.armed (.inr ⟨hstage, hflag⟩)
      · cases hstep
  | clearFlag =>
      simp only [Consolidation.step] at hstep
      split at hstep
      · cases hstep
        exact ⟨h.busy, fun hpolling => by rcases hpolling with hs | ⟨hs, _⟩ <;> cases hs⟩
      · cases hstep
  | endPass processed =>
      simp only [Consolidation.step] at hstep
      split at hstep
      · cases hstep
        exact ⟨h.busy, fun _ => hok⟩
      · cases hstep

/-! ## The gates -/

theorem Ready.attends (h : Ready a) : a.Attends := by
  intro hrunning hleft e he a' hstep
  have hidle : ¬ a.Talking := by
    rintro ⟨turn, hturn, _⟩
    rw [hrunning] at hturn
    cases hturn
  rcases he with rfl | rfl
  · simp only [Consolidation.step] at hstep
    split at hstep
    · rename_i firstCycle hstage
      split at hstep
      · cases hstep
        exact .inr rfl
      · rename_i hfirst
        rw [Bool.not_eq_true] at hfirst
        have hkeys := (h.armed (.inl (hfirst ▸ hstage)) (.inl hleft)).1
        rw [if_pos (Agent.anyIdle_of_running h.busy hrunning hkeys)] at hstep
        cases hstep
        exact .inl rfl
    · cases hstep
  · simp only [Consolidation.step] at hstep
    split at hstep
    · rename_i hstage
      cases hstep
      right
      cases hflag : a.hasNewActivity with
      | true => rfl
      | false =>
          rcases (h.armed (.inr ⟨hstage, hflag⟩) (.inl hleft)).2 with hset | htalking
          · rw [hflag] at hset
            cases hset
          · exact absurd htalking hidle
    · cases hstep

/-- In a run whose passes and removals keep the gates armed for the work they leave, the loop
goes on to a consolidation whenever it comes to the gates while no turn runs and events are
left. -/
theorem attends_of_keeps {a a' : Agent} (hnew : New a) (h : Run step Keeps a a') : a'.Attends := by
  have hready : Ready a' := by
    apply h.invariant hnew.ready
    intro _ _ _ hready hok hstep
    exact hready.step hok hstep
  exact hready.attends

/-! ## Steps that lose a wake-up -/

/-- The loop is before the gates, there is work, and one of the gates may stay closed. -/
structure Agent.Lost (a : Agent) : Prop where
  polling : a.Polling
  work : a.HasWork
  closed : ¬ a.Armed

theorem lost_of_not_keeps {e : Event} (hnot : ¬ Keeps a e)
    (hstep : step a e = some a') : a'.Lost := by
  cases e with
  | cleanupSession sessionId =>
      cases hstep
      unfold Keeps at hnot
      push Not at hnot
      rcases hnot with ⟨hpolling, hwork, hlast⟩
      refine ⟨hpolling, hwork, fun harmed => ?_⟩
      obtain ⟨other, hmem⟩ := List.exists_mem_of_ne_nil _ harmed.1
      rcases AList.mem_erase.mp (AList.mem_keys.mpr hmem) with ⟨hother, hbefore⟩
      exact hother (hlast other (AList.mem_keys.mp hbefore))
  | endPass processed =>
      simp only [step] at hstep
      split at hstep
      · cases hstep
        unfold Keeps at hnot
        push Not at hnot
        exact ⟨.inl rfl, hnot.1, hnot.2⟩
      · cases hstep
  | startTurn sessionId => exact absurd trivial hnot
  | addMessage i => exact absurd trivial hnot
  | endTurn i => exact absurd trivial hnot
  | timeout => exact absurd trivial hnot
  | readFlag => exact absurd trivial hnot
  | clearFlag => exact absurd trivial hnot

/-- All turns end, one after the other. -/
theorem exists_turns_ended (a : Agent) : ∃ b, Run step AnyStep a b ∧ b.running = [] ∧
    b.unprocessed = a.unprocessed ∧ b.stage = a.stage ∧
    b.excludedConsolidationSessionIds = a.excludedConsolidationSessionIds ∧
    (b.sessionActivity.keys ≠ [] → a.sessionActivity.keys ≠ []) ∧
    (¬ a.Talking → b.hasNewActivity = a.hasNewActivity) := by
  induction hrunning : a.running generalizing a with
  | nil => exact ⟨a, .start, hrunning, rfl, rfl, rfl, id, fun _ => rfl⟩
  | cons turn rest ih =>
      have hfirst : step a (.endTurn 0) =
          some { a.notifySessionIdle turn.sessionId with running := rest } := by
        simp only [step, hrunning, List.getElem?_cons_zero, Option.map_some, List.eraseIdx_cons_zero]
      obtain ⟨b, hrun, hended, hevents, hstage, hexcluded, hkeys, hflag⟩ :=
        ih { a.notifySessionIdle turn.sessionId with running := rest } rfl
      rw [Agent.notifySessionIdle_rest] at hevents hstage hexcluded
      refine ⟨b, (Run.next .start trivial hfirst).trans hrun, hended, hevents, hstage, hexcluded,
        fun h => (Agent.notifySessionIdle_keys _ _).mp (hkeys h), fun hquiet => ?_⟩
      have hsession : turn.sessionId ∈ a.excludedConsolidationSessionIds := by
        by_contra hsession
        exact hquiet ⟨turn, hrunning ▸ List.mem_cons_self, hsession⟩
      have hrest : ¬ Agent.Talking { a.notifySessionIdle turn.sessionId with running := rest } := by
        rintro ⟨other, hother, hsession'⟩
        rw [Agent.notifySessionIdle_rest] at hsession'
        exact hquiet ⟨other, hrunning ▸ List.mem_cons_of_mem _ hother, hsession'⟩
      rw [hflag hrest]
      dsimp only
      rw [Agent.notifySessionIdle_flag]
      simp [hsession]

/-- The loop reads the cleared flag. -/
theorem Agent.Lost.exists_waiting (h : a.Lost) :
    ∃ b, Run step AnyStep a b ∧ b.Lost ∧ b.stage = .waiting false := by
  rcases h.polling with hstage | ⟨hstage, hflag⟩
  · exact ⟨a, .start, h, hstage⟩
  · have hread : step a .readFlag = some { a with stage := .waiting false } := by
      simp [step, hstage, hflag]
    exact ⟨_, .next .start trivial hread, ⟨.inl rfl, h.work, h.closed⟩, rfl⟩

/-- A turn that runs adds an event if none is left yet. -/
theorem Agent.Lost.exists_event (h : a.Lost) : ∃ b, Run step AnyStep a b ∧ b.Lost ∧
    b.stage = a.stage ∧
    ∃ turn ∈ b.unprocessed, turn.sessionId ∉ b.excludedConsolidationSessionIds := by
  rcases h.work with ⟨turn, hturn, hended, hsession⟩ | ⟨turn, hturn, hsession⟩
  · exact ⟨a, .start, h, rfl, turn, hturn, hsession⟩
  · obtain ⟨i, hi⟩ := List.mem_iff_getElem?.mp hturn
    have hadd : step a (.addMessage i) =
        some { a with unprocessed := a.unprocessed ++ [turn] } := by
      simp only [step, hi, Option.map_some]
    refine ⟨_, .next .start trivial hadd, ⟨h.polling, .inr ⟨turn, hturn, hsession⟩, h.closed⟩,
      rfl, turn, ?_, hsession⟩
    exact List.mem_append_right _ (List.mem_singleton.mpr rfl)

/-- Once the turns have ended, the loop goes back to wait at one of the gates. -/
theorem exists_not_attends (hrunning : a.running = []) (hleft : a.Left)
    (hstage : a.stage = .waiting false)
    (hclosed : a.sessionActivity.keys ≠ [] → a.hasNewActivity = false) :
    ∃ b, Run step AnyStep a b ∧ ¬ b.Attends := by
  cases hidle : a.anyIdle with
  | false =>
      have htimeout : step a .timeout = some { a with stage := .waiting false } := by
        simp [step, hstage, hidle]
      refine ⟨a, .start, fun hattends => ?_⟩
      rcases hattends hrunning hleft .timeout (.inl rfl) _ htimeout with hs | hs <;> cases hs
  | true =>
      have htimeout : step a .timeout = some { a with stage := .idleSeen } := by
        simp [step, hstage, hidle]
      have hkeys : a.sessionActivity.keys ≠ [] := by
        obtain ⟨entry, hentry, _⟩ := List.any_eq_true.mp hidle
        exact List.ne_nil_of_mem (List.mem_map_of_mem hentry)
      have hread : step { a with stage := .idleSeen } .readFlag =
          some { a with stage := .waiting false } := by
        simp [step, hclosed hkeys]
      refine ⟨_, .next .start trivial htimeout, fun hattends => ?_⟩
      rcases hattends hrunning hleft .readFlag (.inr rfl) _ hread with hs | hs <;> cases hs

/-- After a step that does not keep the gates armed, the loop can come to them while events are
left and go back to wait, without another turn. -/
theorem not_attends_of_not_keeps {e : Event} (hnot : ¬ Keeps a e) (hstep : step a e = some a') :
    ∃ b, Run step AnyStep a' b ∧ ¬ b.Attends := by
  obtain ⟨w, hread, hlost, hwaiting⟩ := (lost_of_not_keeps hnot hstep).exists_waiting
  obtain ⟨b, hadded, hlost, hsame, turn, hturn, hsession⟩ := hlost.exists_event
  obtain ⟨c, hended, hrunning, hevents, hstage, hexcluded, hkeys, hflag⟩ := exists_turns_ended b
  have hleft : c.Left := by
    refine ⟨turn, hevents ▸ hturn, ?_, hexcluded ▸ hsession⟩
    rw [hrunning]
    exact List.not_mem_nil
  have hclear : c.sessionActivity.keys ≠ [] → c.hasNewActivity = false := by
    intro hsessions
    have hclosed := hlost.closed
    unfold Agent.Armed at hclosed
    push Not at hclosed
    rcases hclosed (hkeys hsessions) with ⟨hunset, hquiet⟩
    rw [hflag hquiet]
    exact Bool.not_eq_true _ ▸ hunset
  have hwaits : c.stage = .waiting false := by rw [hstage, hsame, hwaiting]
  obtain ⟨d, hgates, hattends⟩ := exists_not_attends hrunning hleft hwaits hclear
  exact ⟨d, ((hread.trans hadded).trans hended).trans hgates, hattends⟩

/-- A new agent with one event more than a batch takes. -/
def backlog : Agent where
  started := 1
  unprocessed := List.replicate 21 ⟨0, lit "s1"⟩

theorem partial_batch_loses_wake_up : ¬ ∀ a a' : Agent, New a → Run step AnyStep a a' →
    a'.Attends := by
  intro h
  have hfound := exists_run_of_any step AnyStep backlog
    [.timeout, .clearFlag, .endPass 20]
    (p := fun a => a.running = [] ∧ a.Left ∧
      ((step a .timeout).any fun a' => decide (a'.stage = .waiting false)) = true)
    (by decide +kernel)
  obtain ⟨a, hrun, hrunning, hleft, hwaits⟩ := hfound
  obtain ⟨a', hstep, hstage⟩ := (Option.any_eq_true _ _).mp hwaits
  have hwaiting := of_decide_eq_true hstage
  rcases h backlog a ⟨rfl, rfl, rfl⟩ hrun hrunning hleft .timeout (.inl rfl) a' hstep with hs | hs
  all_goals
    rw [hwaiting] at hs
    cases hs

/-- A second turn ends during the pass, which leaves its event. -/
theorem second_turn_attends : ∃ a', Run step Keeps {} a' ∧ a'.running = [] ∧ a'.Left ∧
    a'.Attends := by
  have hfound := exists_run_of_any step Keeps {}
    [.startTurn (lit "s1"), .addMessage 0, .endTurn 0, .timeout, .clearFlag,
      .startTurn (lit "s2"), .addMessage 0, .endTurn 0, .endPass 1, .timeout]
    (p := fun a => a.running = [] ∧ a.Left) (by decide +kernel)
  obtain ⟨a', hrun, hrunning, hleft⟩ := hfound
  exact ⟨a', hrun, hrunning, hleft, attends_of_keeps ⟨rfl, rfl, rfl⟩ hrun⟩

end JiuwenCore.Consolidation
