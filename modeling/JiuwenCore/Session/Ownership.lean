import JiuwenCore.Lib.Ownership
import JiuwenCore.Session.Registry

/-!
# Who keeps an agent alive

An agent lives as long as a `shared_ptr` to it does, and its destructor joins its
consolidation thread. The manager holds the active agent, and an entry that is alive holds
the agent it names; the locals of the calls are the references kept here beside the state of
the manager. `Shutdown` stops the threads of the agents it finds.
-/

namespace JiuwenCore.Session

/-! ## References -/

/-- Whose local a copy of a `shared_ptr` is. -/
inductive Holder where
  | turn (i : Nat)
  | removal (k : Nat)
  | shutdown
  /-- A reload that has swapped, a caller of `GetAgent`, or a thread whose cached entry an
  exception has left behind. -/
  | other
  deriving DecidableEq, Repr

structure Reference where
  holder : Holder
  entry : Option Nat := none
  agent : Option Nat := none
  deriving DecidableEq, Repr

structure Owned where
  manager : State := {}
  references : List Reference := []
  /-- How many reloads have constructed an agent they have not swapped in; its thread
  runs. -/
  building : Nat := 0
  /-- The agents whose consolidation thread runs. -/
  threads : List Nat := []
  /-- The agents the first `Shutdown` has to stop yet. -/
  shutdown : Option (List Nat) := none

namespace Owned

def agentOf (o : Owned) (e : Nat) : Option Nat := (o.manager.entries[e]?).bind (·.agent)

def registered (o : Owned) : List Nat := o.manager.sessions.entries.map (·.2)

/-- The entries somebody holds. -/
def liveEntries (o : Owned) : List Nat := o.registered ++ o.references.filterMap (·.entry)

/-- The agents somebody holds. -/
def held (o : Owned) : List Nat :=
  o.manager.agent.toList ++ (o.references.filterMap (·.agent) ++ o.liveEntries.filterMap o.agentOf)

/-- The agents `Shutdown` finds: the active one, and those of the registered entries. -/
def named (o : Owned) : List Nat := o.manager.agent.toList ++ o.registered.filterMap o.agentOf

/-- An agent that nobody holds is destroyed, which ends its thread. -/
def settle (o : Owned) : Owned := { o with threads := o.threads.filter (· ∈ o.held) }

/-! ## Steps -/

/-- The reload has returned, the removal is through, the turn is not over. -/
def mayRelease (o : Owned) : Holder → Bool
  | .turn _ => false
  | .removal k => (o.manager.removals[k]?).any (·.phase = .done)
  | .shutdown => o.shutdown = some []
  | .other => true

/-- The references after a step of the manager. An `Invoke` keeps its entry and its agent
until it returns, a `RemoveSession` the entry it has erased, a `ReloadAgent` the old agent. -/
def moveReferences (o : Owned) (after : State) : Event → List Reference
  | .restart _ _ _ _ => []
  | .reload _ constructed =>
      if o.manager.initialized ∧ constructed then
        o.references ++ [{ holder := .other, agent := o.manager.agent }]
      else o.references
  | .findEntry i .found =>
      match o.manager.calls[i]? with
      | some call =>
          let e := (findOrCreateEntry call.conversation.sessionId o.manager).2
          o.references ++
            [{ holder := .turn i, entry := some e, agent := (after.entries[e]?).bind (·.agent) }]
      | none => o.references
  | .endTurn i .throwsOther =>
      o.references.map fun r =>
        if r.holder = .turn i then { holder := .other, entry := r.entry } else r
  | .finish i => o.references.filter (·.holder ≠ .turn i)
  | .eraseEntry k =>
      match o.manager.removals[k]? with
      | some removal =>
          o.references ++
            [{ holder := .removal k, entry := o.manager.sessions.lookup removal.sessionId }]
      | none => o.references
  | _ => o.references

/-- A reload that gets as far as the swap has constructed an agent before. -/
def manage (e : Event) (o : Owned) : Option Owned :=
  match e with
  | .restart _ _ _ _ =>
      (Session.step o.manager e).map fun st => { manager := st, threads := st.agent.toList }
  | .reload _ constructed =>
      if o.manager.initialized ∧ o.building = 0 then none
      else (Session.step o.manager e).map fun st =>
        { o with
          manager := st
          references := o.moveReferences st e
          building := o.building - 1
          threads := o.threads ++
            if o.manager.initialized ∧ constructed then [o.manager.agentsMade] else [] }
  | _ => (Session.step o.manager e).map fun st =>
      { o with manager := st, references := o.moveReferences st e }

inductive Event where
  | manager (e : Session.Event)
  | construct
  | getAgent
  | release (n : Nat)
  | collect
  | stopAgent (a : Nat)
  deriving DecidableEq, Repr

def advance (o : Owned) : Owned.Event → Option Owned
  | .manager e => o.manage e
  | .construct =>
      if o.manager.initialized then some { o with building := o.building + 1 } else none
  | .getAgent =>
      some { o with
        references := o.references ++ [{ holder := .other, agent := o.manager.agent }] }
  | .release n =>
      match o.references[n]? with
      | some r =>
          if o.mayRelease r.holder then some { o with references := o.references.eraseIdx n }
          else none
      | none => none
  | .collect =>
      if o.shutdown = none then
        some { o with
          references := o.references ++ o.named.map fun a => { holder := .shutdown, agent := some a }
          shutdown := some o.named }
      else none
  | .stopAgent a =>
      match o.shutdown with
      | some rest =>
          if a ∈ rest then
            some { o with threads := o.threads.filter (· ≠ a), shutdown := some (rest.filter (· ≠ a)) }
          else none
      | none => none

def step (o : Owned) (e : Owned.Event) : Option Owned := (o.advance e).map settle

/-! ## The lock of the registry -/

/-- The steps that are taken under `sessionMutex_`. -/
def Event.locked : Owned.Event → Bool
  | .manager (.reload _ _) => true
  | .manager (.findEntry _ _) => true
  | .manager (.getOrCreate _ _) => true
  | .manager (.eraseEntry _) => true
  | .getAgent => true
  | .collect => true
  | _ => false

def holdings : Holdings Owned Owned.Event Nat where
  step := step
  held := held
  locked := Event.locked

/-- Somebody else than the entry holds the agent. -/
def HeldBeside (o : Owned) (e a : Nat) : Prop :=
  o.manager.agent = some a ∨ (∃ r ∈ o.references, r.agent = some a) ∨
    ∃ e' ∈ o.liveEntries, e' ≠ e ∧ o.agentOf e' = some a

instance (o : Owned) (e a : Nat) : Decidable (o.HeldBeside e a) :=
  inferInstanceAs (Decidable (_ ∨ _ ∨ _))

/-- An `Invoke` that takes an entry from a draining agent leaves the agent to another
holder. -/
def KeepsHolder (o : Owned) : Owned.Event → Prop
  | .manager (.findEntry i .found) =>
      ∀ call ∈ o.manager.calls[i]?, ∀ e ∈ o.manager.sessions.lookup call.conversation.sessionId,
        ∀ a ∈ o.agentOf e, a ∈ o.manager.draining → o.HeldBeside e a
  | _ => True

instance (o : Owned) (e : Owned.Event) : Decidable (o.KeepsHolder e) := by
  unfold KeepsHolder
  split <;> infer_instance

section

variable {o o' : Owned} {a : Nat}

theorem mem_liveEntries {e : Nat} : e ∈ o.liveEntries ↔
    (∃ sessionId, o.manager.sessions.lookup sessionId = some e) ∨
      ∃ r ∈ o.references, r.entry = some e := by
  rw [liveEntries, registered, List.mem_append, mem_registered, List.mem_filterMap]

theorem mem_held : a ∈ o.held ↔ o.manager.agent = some a ∨
    (∃ r ∈ o.references, r.agent = some a) ∨ ∃ e ∈ o.liveEntries, o.agentOf e = some a := by
  rw [held, List.mem_append, List.mem_append, Option.mem_toList, List.mem_filterMap,
    List.mem_filterMap]

/-- What was held is still held where the active agent, the references and the agents of the
live entries are. -/
theorem held_mono (hactive : ∀ a, o.manager.agent = some a → a ∈ o'.held)
    (hreferences : ∀ r ∈ o.references, r ∈ o'.references)
    (hentries : ∀ e ∈ o.liveEntries, ∀ a, o.agentOf e = some a → a ∈ o'.held) :
    ∀ a ∈ o.held, a ∈ o'.held := by
  intro a ha
  rcases mem_held.mp ha with hagent | ⟨r, hr, hagent⟩ | ⟨e, he, hagent⟩
  · exact hactive a hagent
  · exact mem_held.mpr (Or.inr (Or.inl ⟨r, hreferences r hr, hagent⟩))
  · exact hentries e he a hagent

theorem step_eq_some {e : Owned.Event} (h : o.step e = some o') :
    ∃ moved, o.advance e = some moved ∧ o' = moved.settle := by
  obtain ⟨moved, hmoved, rfl⟩ := Option.map_eq_some_iff.mp h
  exact ⟨moved, hmoved, rfl⟩

/-- What a step of the manager leaves of the entries that are alive, and of their agents. -/
theorem held_mono_of_entries (hactive : ∀ a, o.manager.agent = some a → a ∈ o'.held)
    (hreferences : ∀ r ∈ o.references, r ∈ o'.references)
    (hregistered : ∀ sessionId e, o.manager.sessions.lookup sessionId = some e →
      e ∈ o'.liveEntries)
    (hagents : ∀ e a, o.agentOf e = some a → o'.agentOf e = some a) :
    ∀ a ∈ o.held, a ∈ o'.held := by
  refine held_mono hactive hreferences fun e he a hagent => ?_
  refine mem_held.mpr (Or.inr (Or.inr ⟨e, ?_, hagents e a hagent⟩))
  rcases mem_liveEntries.mp he with ⟨sessionId, hlookup⟩ | ⟨r, hr, hentry⟩
  · exact hregistered sessionId e hlookup
  · exact mem_liveEntries.mpr (Or.inr ⟨r, hreferences r hr, hentry⟩)

theorem held_of_agent (h : o.manager.agent = some a) : a ∈ o.held := mem_held.mpr (Or.inl h)

theorem live_of_lookup (sessionId : Str) {e : Nat}
    (h : o.manager.sessions.lookup sessionId = some e) : e ∈ o.liveEntries :=
  mem_liveEntries.mpr (Or.inl ⟨sessionId, h⟩)

theorem held_lookup (o : Owned) (sessionId : Str) (outcome : Lookup) :
    ∀ a ∈ o.held, a ∈ held { o with manager := lookupEntry sessionId o.manager outcome } := by
  refine lookupEntry_keeps
    (motive := fun st => ∀ a ∈ o.held, a ∈ held { o with manager := st }) outcome
    (fun _ => id) (fun hnone => ?_) fun _ _ => id
  refine held_mono_of_entries (fun a hagent => held_of_agent hagent) (fun _ => id)
    (fun id e hlookup => live_of_lookup id ?_) fun e a hagent => ?_
  · have hid : id ≠ sessionId := by
      rintro rfl
      rw [hnone] at hlookup
      cases hlookup
    exact (AList.lookup_insert_ne hid).trans hlookup
  · obtain ⟨entry, hentry, hagent⟩ := Option.bind_eq_some_iff.mp hagent
    exact Option.bind_eq_some_iff.mpr ⟨entry, createEntry_old sessionId _ hentry, hagent⟩

theorem held_append (o : Owned) (rest : List Reference) :
    ∀ a ∈ o.held, a ∈ held { o with references := o.references ++ rest } :=
  held_mono_of_entries (fun _ hagent => held_of_agent hagent)
    (fun _ hr => List.mem_append_left _ hr) (fun _ _ hlookup => live_of_lookup _ hlookup)
    fun _ _ => id

/-! ### The rebinding -/

/-- What an `Invoke` makes of a state in which its entry is registered. -/
def bind (o : Owned) (i e : Nat) (phase : Phase) : Owned :=
  let st := (o.manager.modifyEntry e (rebind o.manager)).setPhase i phase
  { o with
    manager := st
    references := o.references ++
      [{ holder := .turn i, entry := some e, agent := (st.entries[e]?).bind (·.agent) }] }

section

variable {i e : Nat} {phase : Phase}

theorem agentOf_bind_ne {j : Nat} (h : e ≠ j) : (o.bind i e phase).agentOf j = o.agentOf j := by
  have hentry : (o.bind i e phase).manager.entries[j]? = _ :=
    @getElem?_modifyEntry o.manager e j (rebind o.manager)
  rw [agentOf, hentry]
  simp only [h, if_false, Option.map_id']
  rfl

theorem agentOf_bind_self : (o.bind i e phase).agentOf e =
    (o.agentOf e).bind fun a => if a ∈ o.manager.draining then o.manager.agent else some a := by
  have hentry : (o.bind i e phase).manager.entries[e]? = _ :=
    @getElem?_modifyEntry o.manager e e (rebind o.manager)
  rw [agentOf, agentOf, hentry]
  cases o.manager.entries[e]? with
  | none => rfl
  | some entry =>
      simp only [if_true, Option.map_some, Option.bind_some]
      cases hagent : entry.agent with
      | none => rw [rebind, hagent]; exact hagent
      | some a =>
          rw [rebind, hagent]
          dsimp only [Option.bind_some]
          split
          · rfl
          · exact hagent

theorem live_bind_iff (hlive : e ∈ o.liveEntries) {j : Nat} :
    j ∈ (o.bind i e phase).liveEntries ↔ j ∈ o.liveEntries := by
  constructor
  · intro hj
    rcases mem_liveEntries.mp hj with hlookup | ⟨r, hr, hentry⟩
    · exact mem_liveEntries.mpr (Or.inl hlookup)
    · rcases List.mem_append.mp hr with hold | hnew
      · exact mem_liveEntries.mpr (Or.inr ⟨r, hold, hentry⟩)
      · rw [List.mem_singleton.mp hnew, Option.some.injEq] at hentry
        exact hentry ▸ hlive
  · intro hj
    rcases mem_liveEntries.mp hj with hlookup | ⟨r, hr, hentry⟩
    · exact mem_liveEntries.mpr (Or.inl hlookup)
    · exact mem_liveEntries.mpr (Or.inr ⟨r, List.mem_append_left _ hr, hentry⟩)

/-- Every agent stays held if and only if the one that is taken from the entry is held beside
it. -/
theorem held_bind_iff (hlive : e ∈ o.liveEntries) :
    (∀ a ∈ o.held, a ∈ (o.bind i e phase).held) ↔
      ∀ a ∈ o.agentOf e, a ∈ o.manager.draining → o.HeldBeside e a := by
  constructor
  · intro hkept a hagent hdraining
    have hself : (o.bind i e phase).agentOf e = o.manager.agent := by
      rw [agentOf_bind_self, hagent, Option.bind_some, if_pos hdraining]
    have ha := hkept a (mem_held.mpr (Or.inr (Or.inr ⟨e, hlive, hagent⟩)))
    rcases mem_held.mp ha with hactive | ⟨r, hr, hr'⟩ | ⟨j, hj, hj'⟩
    · exact Or.inl hactive
    · rcases List.mem_append.mp hr with hold | hnew
      · exact Or.inr (Or.inl ⟨r, hold, hr'⟩)
      · rw [List.mem_singleton.mp hnew] at hr'
        exact Or.inl (hself.symm.trans hr')
    · by_cases hne : e = j
      · subst hne
        exact Or.inl (hself.symm.trans hj')
      · refine Or.inr (Or.inr ⟨j, (live_bind_iff hlive).mp hj, Ne.symm hne, ?_⟩)
        rwa [agentOf_bind_ne hne] at hj'
  · intro hbeside
    refine held_mono (fun a hactive => held_of_agent hactive)
      (fun r hr => List.mem_append_left _ hr) fun j hj a hagent => ?_
    by_cases hne : e = j
    · subst hne
      by_cases hdraining : a ∈ o.manager.draining
      · rcases hbeside a hagent hdraining with hactive | ⟨r, hr, hr'⟩ | ⟨j, hj, hne, hj'⟩
        · exact held_of_agent hactive
        · exact mem_held.mpr (Or.inr (Or.inl ⟨r, List.mem_append_left _ hr, hr'⟩))
        · refine mem_held.mpr (Or.inr (Or.inr ⟨j, (live_bind_iff hlive).mpr hj, ?_⟩))
          rwa [agentOf_bind_ne (Ne.symm hne)]
      · refine mem_held.mpr (Or.inr (Or.inr ⟨e, (live_bind_iff hlive).mpr hj, ?_⟩))
        rw [agentOf_bind_self, hagent, Option.bind_some, if_neg hdraining]
    · refine mem_held.mpr (Or.inr (Or.inr ⟨j, (live_bind_iff hlive).mpr hj, ?_⟩))
      rwa [agentOf_bind_ne hne]

/-- The critical section of an `Invoke`: the lookup, and the rebinding of what it finds. -/
theorem findEntry_found (h : o.manage (.findEntry i .found) = some o') :
    ∃ conversation phase, o.manager.calls[i]? = some ⟨conversation, .admitted⟩ ∧
      o' = bind { o with manager := (findOrCreateEntry conversation.sessionId o.manager).1 } i
        (findOrCreateEntry conversation.sessionId o.manager).2 phase := by
  obtain ⟨st, hstep, rfl⟩ := Option.map_eq_some_iff.mp h
  obtain ⟨conversation, hcall, ⟨_, rfl⟩ | ⟨made, hthrows, _⟩⟩ :=
    findEntry_spec (show Session.findEntry i .found o.manager = some st from hstep)
  · obtain ⟨phase, hbind, _⟩ := bindCall_spec i conversation.sessionId o.manager
    refine ⟨conversation, phase, hcall, ?_⟩
    rw [hbind, moveReferences, hcall]
    rfl
  · cases hthrows

theorem held_findEntry_iff (h : o.manage (.findEntry i .found) = some o') :
    (∀ a ∈ o.held, a ∈ o'.held) ↔ o.KeepsHolder (.manager (.findEntry i .found)) := by
  obtain ⟨conversation, phase, hcall, rfl⟩ := findEntry_found h
  have hcond : o.KeepsHolder (.manager (.findEntry i .found)) ↔
      ∀ e ∈ o.manager.sessions.lookup conversation.sessionId, ∀ a ∈ o.agentOf e,
        a ∈ o.manager.draining → o.HeldBeside e a := by
    rw [KeepsHolder, hcall]
    exact ⟨fun hkept => hkept _ rfl, fun hkept call hsame => by cases hsame; exact hkept⟩
  rw [hcond]
  cases hlookup : o.manager.sessions.lookup conversation.sessionId with
  | some e =>
      rw [findOrCreateEntry_found hlookup]
      rw [held_bind_iff (live_of_lookup _ hlookup)]
      exact ⟨fun hkept e' he' => by cases he'; exact hkept, fun hkept => hkept e rfl⟩
  | none =>
      rw [findOrCreateEntry_new hlookup]
      refine iff_of_true ?_ nofun
      have hcreated := o.held_lookup conversation.sessionId .found
      rw [lookupEntry, findOrCreateEntry_new hlookup] at hcreated
      have hlive : o.manager.entries.length ∈
          liveEntries { o with manager := createEntry conversation.sessionId o.manager } :=
        live_of_lookup conversation.sessionId (AList.lookup_insert _)
      have hnew : agentOf { o with manager := createEntry conversation.sessionId o.manager }
          o.manager.entries.length = o.manager.agent := by
        rw [agentOf, createEntry_new]
        rfl
      refine fun a ha => (held_bind_iff hlive).mpr ?_ a (hcreated a ha)
      exact fun b hagent _ => Or.inl (hnew.symm.trans hagent)

end

/-! ### The other steps -/

theorem held_throws {i : Nat} {made : Bool} (h : o.manage (.findEntry i (.throws made)) = some o') :
    ∀ a ∈ o.held, a ∈ o'.held := by
  obtain ⟨st, hstep, rfl⟩ := Option.map_eq_some_iff.mp h
  obtain ⟨conversation, hcall, ⟨hfound, _⟩ | ⟨_, _, rfl⟩⟩ :=
    findEntry_spec (show Session.findEntry i (.throws made) o.manager = some st from hstep)
  · cases hfound
  · exact o.held_lookup conversation.sessionId _

/-- A reload puts another agent in the place of the active one and keeps the entries. -/
theorem reloadAgent_spec (newConfig : AgentConfig) (constructed : Bool) (st : State) :
    (reloadAgent newConfig constructed st).sessions = st.sessions ∧
      (reloadAgent newConfig constructed st).entries = st.entries ∧
      (reloadAgent newConfig constructed st).agent =
        if st.initialized ∧ constructed then some st.agentsMade else st.agent := by
  unfold reloadAgent
  split
  · dsimp only
    split <;> exact ⟨rfl, rfl, rfl⟩
  · exact ⟨rfl, rfl, rfl⟩

theorem held_reload {newConfig : AgentConfig} {constructed : Bool}
    (h : o.manage (.reload newConfig constructed) = some o') : ∀ a ∈ o.held, a ∈ o'.held := by
  obtain ⟨_, h⟩ := Option.ite_none_left_eq_some.mp h
  obtain ⟨st, hstep, rfl⟩ := Option.map_eq_some_iff.mp h
  cases hstep
  obtain ⟨hsessions, hentries, hagent⟩ := reloadAgent_spec newConfig constructed o.manager
  refine held_mono_of_entries (fun a hactive => ?_) (fun r hr => ?_)
    (fun id e hlookup => live_of_lookup id ?_) fun e a he => ?_
  · by_cases hswap : o.manager.initialized ∧ constructed
    · refine mem_held.mpr (Or.inr (Or.inl
        ⟨{ holder := .other, agent := o.manager.agent }, ?_, hactive⟩))
      rw [moveReferences, if_pos hswap]
      exact List.mem_append_right _ (List.mem_singleton.mpr rfl)
    · refine held_of_agent ?_
      rw [hagent, if_neg hswap]
      exact hactive
  · rw [moveReferences]
    split
    · exact List.mem_append_left _ hr
    · exact hr
  · rw [hsessions]
    exact hlookup
  · rw [agentOf, hentries]
    exact he

/-- The entry that is erased goes to the removal. -/
theorem held_eraseEntry {k : Nat} (h : o.manage (.eraseEntry k) = some o') :
    ∀ a ∈ o.held, a ∈ o'.held := by
  obtain ⟨st, hstep, rfl⟩ := Option.map_eq_some_iff.mp h
  obtain ⟨sessionId, dir, hk, rfl⟩ :=
    eraseEntry_spec (show Session.eraseEntry k o.manager = some st from hstep)
  have hmoved : ∀ st', o.moveReferences st' (.eraseEntry k) = o.references ++
      [{ holder := .removal k, entry := o.manager.sessions.lookup sessionId }] := by
    intro st'
    rw [moveReferences, hk]
  refine held_mono_of_entries (fun a hactive => held_of_agent hactive) (fun r hr => ?_)
    (fun id e hlookup => ?_) fun _ _ => id
  · rw [hmoved]
    exact List.mem_append_left _ hr
  · by_cases hid : id = sessionId
    · subst hid
      refine mem_liveEntries.mpr (Or.inr
        ⟨{ holder := .removal k, entry := o.manager.sessions.lookup id }, ?_, hlookup⟩)
      rw [hmoved]
      exact List.mem_append_right _ (List.mem_singleton.mpr rfl)
    · exact live_of_lookup id ((AList.lookup_erase_ne hid).trans hlookup)

theorem held_exact {e : Owned.Event} (h : o.step e = some o') (hlocked : e.locked = true) :
    (∀ a ∈ o.held, a ∈ o'.held) ↔ o.KeepsHolder e := by
  obtain ⟨moved, hmoved, rfl⟩ := step_eq_some h
  change (∀ a ∈ o.held, a ∈ moved.held) ↔ o.KeepsHolder e
  cases e with
  | manager e =>
      have hmanage : o.manage e = some moved := hmoved
      cases e with
      | findEntry i outcome =>
          cases outcome with
          | found => exact held_findEntry_iff hmanage
          | throws made => exact iff_of_true (held_throws hmanage) trivial
      | reload newConfig constructed => exact iff_of_true (held_reload hmanage) trivial
      | getOrCreate sessionId outcome =>
          cases hmanage
          exact iff_of_true (o.held_lookup sessionId outcome) trivial
      | eraseEntry k => exact iff_of_true (held_eraseEntry hmanage) trivial
      | _ => cases hlocked
  | getAgent =>
      cases hmoved
      exact iff_of_true (o.held_append _) trivial
  | collect =>
      obtain ⟨_, hmoved⟩ := Option.ite_none_right_eq_some.mp hmoved
      cases hmoved
      exact iff_of_true (o.held_append _) trivial
  | _ => cases hlocked

theorem keepsHolder_unlocked {e : Owned.Event} (h : e.locked = false) : o.KeepsHolder e := by
  cases e with
  | manager e =>
      cases e with
      | findEntry i outcome => cases h
      | _ => exact trivial
  | _ => exact trivial

end

/-- In every run, the last holder of an agent lets go of it under the lock in no step if and
only if every `Invoke` that takes an entry from a draining agent leaves that agent to another
holder. -/
theorem never_destroyed_locked_iff {w : Watched Owned Nat}
    (h : Run holdings.watch AnyStep ⟨{}, []⟩ w) :
    w.dropped = [] ↔ Run holdings.watch (fun w e => w.state.KeepsHolder e) ⟨{}, []⟩ w :=
  holdings.dropped_eq_nil_iff (fun _ _ _ hstep hlocked => held_exact hstep hlocked)
    (fun _ _ hlocked => keepsHolder_unlocked hlocked) h

/-- The agent of before the reload drains, and the entry of the default session is the only
one that names it. -/
theorem agent_destroyed_locked :
    ¬ ∀ w, Run holdings.watch AnyStep ⟨{}, []⟩ w → w.dropped = [] := by
  intro h
  obtain ⟨w, hrun, hdropped⟩ := exists_run_of_any holdings.watch AnyStep ⟨{}, []⟩
    (p := fun w => w.dropped ≠ [])
    [.manager (.restart ⟨lit "/srv", none⟩ {} [] .found), .construct, .manager (.reload {} true),
      .release 0, .manager (.invoke kDefaultSessionId), .manager (.enterGate 0),
      .manager (.testGate 0), .manager (.findEntry 0 .found)]
    (by decide +kernel)
  exact hdropped (h w hrun)

/-- A turn of before the reload is still in flight when the entry is rebound. -/
theorem agent_outlives_rebinding : ∃ w, Run holdings.watch AnyStep ⟨{}, []⟩ w ∧
    w.state.manager.draining = [0] ∧ w.dropped = [] := by
  obtain ⟨w, hrun, hdraining⟩ := exists_run_of_any holdings.watch
    (fun w e => w.state.KeepsHolder e) ⟨{}, []⟩
    (p := fun w => w.state.manager.draining = [0] ∧ w.state.agentOf 0 = some 1)
    [.manager (.restart ⟨lit "/srv", none⟩ {} [] .found),
      .manager (.invoke kDefaultSessionId), .manager (.enterGate 0), .manager (.testGate 0),
      .manager (.findEntry 0 .found), .construct, .manager (.reload {} true), .release 1,
      .manager (.invoke kDefaultSessionId), .manager (.enterGate 1), .manager (.testGate 1),
      .manager (.findEntry 1 .found)]
    (by decide +kernel)
  have hany : Run holdings.watch AnyStep ⟨{}, []⟩ w := hrun.mono fun _ _ _ => trivial
  exact ⟨w, hany, hdraining.1, (never_destroyed_locked_iff hany).mpr hrun⟩

/-! ## Shutdown -/

/-- When `Shutdown` collects the agents, no reload has one under construction, and all that
anybody holds are the active one and those of registered entries; no agent is constructed
from then on. -/
def KeepsThreads (o : Owned) : Owned.Event → Prop
  | .collect => o.building = 0 ∧ ∀ a ∈ o.held, a ∈ o.named
  | .construct => o.shutdown = none
  | _ => True

instance (o : Owned) (e : Owned.Event) : Decidable (o.KeepsThreads e) := by
  unfold KeepsThreads
  split <;> infer_instance

/-- The threads that run are those of agents that are held, and after the collection those
`Shutdown` has to stop yet. -/
structure Stopping (o : Owned) : Prop where
  owned : ∀ a ∈ o.threads, a ∈ o.held
  left : ∀ rest, o.shutdown = some rest → o.building = 0 ∧ ∀ a ∈ o.threads, a ∈ rest

section

variable {o o' : Owned} {a : Nat}

theorem mem_threads_settle (h : a ∈ o.settle.threads) : a ∈ o.threads ∧ a ∈ o.held := by
  obtain ⟨hthread, hheld⟩ := List.mem_filter.mp h
  exact ⟨hthread, of_decide_eq_true hheld⟩

/-- A step of the manager starts a thread only with a new process or with an agent that has
been under construction. -/
theorem manage_threads {e : Session.Event} (h : o.manage e = some o') :
    o'.shutdown = none ∨
      o'.shutdown = o.shutdown ∧ (o.building = 0 → o'.building = 0) ∧
        ((∀ a ∈ o'.threads, a ∈ o.threads) ∨ o.building ≠ 0) := by
  cases e with
  | restart env config names defaultOutcome =>
      obtain ⟨st, _, rfl⟩ := Option.map_eq_some_iff.mp h
      exact Or.inl rfl
  | reload newConfig constructed =>
      obtain ⟨hbuilding, h⟩ := Option.ite_none_left_eq_some.mp h
      obtain ⟨st, _, rfl⟩ := Option.map_eq_some_iff.mp h
      refine Or.inr ⟨rfl, fun hnone => ?_, ?_⟩
      · dsimp only
        rw [hnone]
      · by_cases hready : o.manager.initialized = true
        · exact Or.inr fun hnone => hbuilding ⟨hready, hnone⟩
        · refine Or.inl fun a ha => ?_
          dsimp only at ha
          rwa [if_neg fun hswap => hready hswap.1, List.append_nil] at ha
  | _ =>
      unfold manage at h
      obtain ⟨st, _, rfl⟩ := Option.map_eq_some_iff.mp h
      exact Or.inr ⟨rfl, id, Or.inl fun _ => id⟩

theorem Stopping.step {e : Owned.Event} (h : Stopping o) (hok : o.KeepsThreads e)
    (hstep : o.step e = some o') : Stopping o' := by
  obtain ⟨moved, hmoved, rfl⟩ := step_eq_some hstep
  refine ⟨fun a ha => (mem_threads_settle ha).2, fun rest hrest => ?_⟩
  change moved.shutdown = some rest at hrest
  suffices hleft : moved.building = 0 ∧ ∀ a ∈ moved.threads, a ∈ rest from
    ⟨hleft.1, fun a ha => hleft.2 a (mem_threads_settle ha).1⟩
  cases e with
  | manager e =>
      rcases manage_threads hmoved with hnone | ⟨hsame, hbuilding, hthreads⟩
      · rw [hnone] at hrest
        cases hrest
      · obtain ⟨hnone, hleft⟩ := h.left rest (hsame.symm.trans hrest)
        rcases hthreads with hfewer | hsome
        · exact ⟨hbuilding hnone, fun a ha => hleft a (hfewer a ha)⟩
        · exact absurd hnone hsome
  | construct =>
      obtain ⟨_, hmoved⟩ := Option.ite_none_right_eq_some.mp hmoved
      cases hmoved
      rw [show o.shutdown = none from hok] at hrest
      cases hrest
  | getAgent =>
      cases hmoved
      exact h.left rest hrest
  | release n =>
      unfold advance at hmoved
      dsimp only at hmoved
      split at hmoved
      · obtain ⟨_, hmoved⟩ := Option.ite_none_right_eq_some.mp hmoved
        cases hmoved
        exact h.left rest hrest
      · cases hmoved
  | collect =>
      obtain ⟨_, hmoved⟩ := Option.ite_none_right_eq_some.mp hmoved
      cases hmoved
      cases hrest
      exact ⟨hok.1, fun a ha => hok.2 a (h.owned a ha)⟩
  | stopAgent a =>
      unfold advance at hmoved
      dsimp only at hmoved
      split at hmoved
      · rename_i before hbefore
        obtain ⟨_, hmoved⟩ := Option.ite_none_right_eq_some.mp hmoved
        cases hmoved
        cases hrest
        obtain ⟨hnone, hleft⟩ := h.left before hbefore
        refine ⟨hnone, fun b hb => ?_⟩
        obtain ⟨hthread, hne⟩ := List.mem_filter.mp hb
        exact List.mem_filter.mpr ⟨hleft b hthread, hne⟩
      · cases hmoved

theorem stopping_run (h : Run Owned.step KeepsThreads {} o) : Stopping o :=
  h.invariant (motive := Stopping) ⟨nofun, nofun⟩ fun _ _ _ hstopping hok hstep =>
    hstopping.step hok hstep

/-- Where `Shutdown` finds every agent that is held, and no agent is constructed beside or
behind it, no consolidation thread runs when it has returned. -/
theorem shutdown_leaves_no_thread (h : Run Owned.step KeepsThreads {} o)
    (hreturned : o.shutdown = some []) : o.threads = [] ∧ o.building = 0 := by
  obtain ⟨hbuilding, hthreads⟩ := (stopping_run h).left [] hreturned
  exact ⟨List.eq_nil_iff_forall_not_mem.mpr fun a ha => List.not_mem_nil (hthreads a ha), hbuilding⟩

end

/-- The turn in flight runs on an agent that no registered entry names any more. -/
theorem thread_outlives_shutdown : ¬ ∀ o, Run Owned.step AnyStep {} o →
    o.shutdown = some [] → o.threads = [] ∧ o.building = 0 := by
  intro h
  obtain ⟨o, hrun, hreturned, hthreads⟩ := exists_run_of_any Owned.step AnyStep {}
    (p := fun o => o.shutdown = some [] ∧ o.threads = [0])
    [.manager (.restart ⟨lit "/srv", none⟩ {} [] .found),
      .manager (.invoke kDefaultSessionId), .manager (.enterGate 0), .manager (.testGate 0),
      .manager (.findEntry 0 .found), .manager (.lockTurn 0), .construct,
      .manager (.reload {} true), .release 1,
      .manager (.invoke kDefaultSessionId), .manager (.enterGate 1), .manager (.testGate 1),
      .manager (.findEntry 1 .found), .collect, .stopAgent 1]
    (by decide +kernel)
  have hnone := (h o hrun hreturned).1
  rw [hthreads] at hnone
  cases hnone

/-- The same without the second call. -/
theorem shutdown_stops_both : ∃ o, Run Owned.step KeepsThreads {} o ∧
    o.manager.draining = [0] ∧ o.threads = [] ∧ o.building = 0 := by
  obtain ⟨o, hrun, hreturned, hdraining⟩ := exists_run_of_any Owned.step KeepsThreads {}
    (p := fun o => o.shutdown = some [] ∧ o.manager.draining = [0])
    [.manager (.restart ⟨lit "/srv", none⟩ {} [] .found),
      .manager (.invoke kDefaultSessionId), .manager (.enterGate 0), .manager (.testGate 0),
      .manager (.findEntry 0 .found), .manager (.lockTurn 0), .construct,
      .manager (.reload {} true), .release 1, .collect, .stopAgent 1, .stopAgent 0]
    (by decide +kernel)
  exact ⟨o, hrun, hdraining, shutdown_leaves_no_thread hrun hreturned⟩

end Owned

end JiuwenCore.Session
