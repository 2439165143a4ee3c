import JiuwenCore.Session.Registry

/-!
# Saves and removals

A save reads the history file, and writes it again with one message more. The lock of the
engine keeps the saves of one entry apart; two entries may share a directory, and a removal
may delete it. Here a save takes two steps, with any other steps in between, and the
messages of every call are recorded, so that they can be looked for on the disk when the
call returns.
-/

namespace JiuwenCore.Session

open ContextEngine

/-! ## Entries in use -/

/-- The entry an `Invoke` has in hand, from the lookup to the return. -/
def Phase.inHand : Phase → Option Nat
  | bound e _ => some e
  | running e _ => some e
  | leaving entry _ => entry
  | released entry _ => entry
  | _ => none

/-- The call has come back. -/
def Phase.over : Phase → Bool
  | returned _ => true
  | thrown => true
  | _ => false

namespace State

def pathOf (st : State) (e : Nat) : Option Location := (st.entries[e]?).map (·.storagePath)

/-- The registered entries, and those of calls that have not returned. -/
def usedEntries (st : State) : List Nat :=
  st.sessions.entries.map (·.2) ++ st.calls.filterMap (·.phase.inHand)

/-- No entry in use lies in the directory. -/
def Unused (st : State) (dir : Location) : Prop :=
  ∀ e ∈ st.usedEntries, ∀ path ∈ st.pathOf e, ¬ dir <+: path

instance (st : State) (dir : Location) : Decidable (st.Unused dir) :=
  inferInstanceAs (Decidable (∀ e ∈ st.usedEntries, ∀ path ∈ st.pathOf e, _))

/-- The directory of the history a running turn writes. -/
def turnDir (st : State) (i : Nat) : Option Location :=
  match st.phaseOf i with
  | some (.running e _) => st.pathOf e
  | _ => none

/-- A new entry of the session does not lie in a directory that is about to be deleted. -/
def Opens (st : State) (sessionId : Str) : Prop :=
  st.sessions.lookup sessionId = none → ∀ removal ∈ st.removals, removal.phase = .checked false →
    ¬ removal.sessionDir <+: st.sessionDirectory sessionId

instance (st : State) (sessionId : Str) : Decidable (st.Opens sessionId) :=
  inferInstanceAs (Decidable (_ → _))

theorem mem_usedEntries {st : State} {e : Nat} : e ∈ st.usedEntries ↔
    (∃ sessionId, st.sessions.lookup sessionId = some e) ∨
      ∃ call ∈ st.calls, call.phase.inHand = some e := by
  rw [usedEntries, List.mem_append, mem_registered, List.mem_filterMap]

end State

/-! ## Saves -/

/-- A message that a call has added to the history in a directory. -/
structure Save where
  call : Nat
  dir : Location
  message : Message
  deriving DecidableEq, Repr

/-- A save that has read the file; `rows` is what it is going to write. -/
structure PendingSave extends Save where
  rows : List Message
  deriving DecidableEq, Repr

structure Saving where
  manager : State := {}
  pending : List PendingSave := []
  /-- The messages added by the calls of this process. -/
  saves : List Save := []

namespace Saving

inductive Event where
  | manager (e : Session.Event)
  | beginSave (i : Nat) (now : Str) (m : Message)
  | endSave (i : Nat)
  deriving DecidableEq, Repr

/-- `AddMessage` up to the point where the history has been read. An invalid message is not
added, and one whose row cannot be dumped is not written. -/
def beginSave (i : Nat) (now : Str) (m : Message) (o : Saving) : Option Saving :=
  match o.manager.calls[i]? with
  | some ⟨conversation, .running e _⟩ =>
      if o.pending.any (·.call = i) then none
      else (o.manager.entries[e]?).map fun entry =>
        let save : Save := ⟨i, entry.storagePath, stamp now m⟩
        let rows := (o.manager.disk.lookup entry.storagePath).getD []
        { manager :=
            { recordMessage e conversation now m entry o.manager with disk := o.manager.disk }
          pending := o.pending ++
            if isValidMessage m ∧ Utf8Message (stamp now m) then
              [{ toSave := save, rows := rows ++ [stamp now m] }] else []
          saves := o.saves ++ if isValidMessage m then [save] else [] }
  | _ => none

/-- The rest of `AddMessage`; where the directory is missing nothing is written. -/
def endSave (i : Nat) (o : Saving) : Option Saving :=
  (o.pending.find? (·.call = i)).map fun p =>
    { o with
      manager := { o.manager with
        disk := o.manager.disk.write p.dir
          ((o.manager.disk.lookup p.dir).map fun _ => p.rows) }
      pending := o.pending.filter (·.call ≠ i) }

/-- A turn does not end within a save. -/
def step (o : Saving) : Saving.Event → Option Saving
  | .manager (.restart env config names defaultOutcome) =>
      (restart env config names defaultOutcome o.manager).map fun st => { manager := st }
  | .manager (.addMessage _ _ _) => none
  | .manager (.endTurn i outcome) =>
      if o.pending.any (·.call = i) then none
      else (endTurn i outcome o.manager).map fun st => { o with manager := st }
  | .manager e => (Session.step o.manager e).map fun st => { o with manager := st }
  | .beginSave i now m => o.beginSave i now m
  | .endSave i => o.endSave i

theorem beginSave_spec {o o' : Saving} {i : Nat} {now : Str} {m : Message}
    (h : o.beginSave i now m = some o') :
    ∃ conversation e a entry, o.manager.calls[i]? = some ⟨conversation, .running e a⟩ ∧
      o.pending.any (·.call = i) = false ∧ o.manager.entries[e]? = some entry ∧
      o' =
        { manager :=
            { recordMessage e conversation now m entry o.manager with disk := o.manager.disk }
          pending := o.pending ++
            if isValidMessage m ∧ Utf8Message (stamp now m) then
              [{ toSave := ⟨i, entry.storagePath, stamp now m⟩
                 rows := (o.manager.disk.lookup entry.storagePath).getD [] ++ [stamp now m] }]
            else []
          saves := o.saves ++
            if isValidMessage m then [⟨i, entry.storagePath, stamp now m⟩] else [] } := by
  unfold beginSave at h
  split at h
  · rename_i conversation e a hcall
    obtain ⟨hidle, h⟩ := Option.ite_none_left_eq_some.mp h
    obtain ⟨entry, hentry, rfl⟩ := Option.map_eq_some_iff.mp h
    exact ⟨conversation, e, a, entry, hcall, Bool.eq_false_iff.mpr hidle, hentry, rfl⟩
  · cases h

/-- What a save that is under way leaves of the other histories, and of its own. -/
theorem lookup_write (disk : Disk) (path dir : Location) (rows : List Message) :
    (disk.write path ((disk.lookup path).map fun _ => rows)).lookup dir =
      if dir = path then (disk.lookup path).map fun _ => rows else disk.lookup dir := by
  split
  · rename_i hdir
    subst hdir
    cases hrows : disk.lookup dir with
    | none => exact hrows
    | some before => exact AList.lookup_insert _
  · rename_i hdir
    cases disk.lookup path with
    | none => rfl
    | some before => exact AList.lookup_insert_ne hdir

/-- A save with nothing in between is the `AddMessage` of the manager. -/
theorem save_eq_addMessage {o o' : Saving} {i : Nat} {now : Str} {m : Message}
    (h : o.beginSave i now m = some o') :
    ∃ st, addMessage i now m o.manager = some st ∧
      { ((o'.endSave i).getD o').manager with disk := st.disk } = st ∧
      ∀ dir, ((o'.endSave i).getD o').manager.disk.lookup dir = st.disk.lookup dir := by
  obtain ⟨conversation, e, a, entry, hcall, hidle, hentry, rfl⟩ := beginSave_spec h
  have hnone : o.pending.find? (·.call = i) = none := by
    refine List.find?_eq_none.mpr fun p hp hi => ?_
    exact Bool.eq_false_iff.mp hidle (List.any_eq_true.mpr ⟨p, hp, hi⟩)
  have hadd : addMessage i now m o.manager =
      some (recordMessage e conversation now m entry o.manager) := by
    rw [addMessage, hcall]
    dsimp only
    rw [hentry]
    rfl
  refine ⟨_, hadd, ?_⟩
  unfold endSave
  dsimp only
  rw [List.find?_append, hnone, Option.none_or]
  simp only [recordMessage_lookup]
  by_cases hsave : isValidMessage m = true ∧ Utf8Message (stamp now m)
  · rw [if_pos hsave, List.find?_singleton]
    simp only [decide_true, if_true, Option.map_some, Option.getD_some, saved, if_pos hsave,
      true_and]
    intro dir
    rw [lookup_write]
    split
    · rename_i hdir
      rw [hdir]
      cases o.manager.disk.lookup entry.storagePath <;> rfl
    · rfl
  · rw [if_neg hsave, List.find?_nil, Option.map_none, Option.getD_none]
    refine ⟨rfl, fun dir => ?_⟩
    rw [saved, if_neg hsave]
    change o.manager.disk.lookup dir = _
    simp

/-! ## The claims of a removal -/

/-- Where `remove_all` is about to run, no entry in use lies. -/
def SparesWriters (o : Saving) : Prop :=
  ∀ removal ∈ o.manager.removals, removal.phase = .checked false →
    o.manager.Unused removal.sessionDir

instance (o : Saving) : Decidable o.SparesWriters :=
  inferInstanceAs (Decidable (∀ removal ∈ o.manager.removals, _))

/-- A call that returns success has its messages on the disk. -/
def KeepsMessages (o : Saving) : Prop :=
  ∀ i o' result, o.step (.manager (.finish i)) = some o' →
    o'.manager.phaseOf i = some (.returned result) → result.success →
      ∀ save ∈ o'.saves, save.call = i →
        ∃ rows, o'.manager.disk.lookup save.dir = some rows ∧ save.message ∈ rows

/-- A removal that gets the lock of its entry, or finds no entry, finds no entry in use in its
directory, and none is created there before the directory is deleted; what is added can be
dumped, and no other save is under way in the directory. -/
def KeepsDirectories (o : Saving) : Saving.Event → Prop
  | .manager (.findEntry i .found) =>
      ∀ call ∈ o.manager.calls[i]?, o.manager.Opens call.conversation.sessionId
  | .manager (.getOrCreate sessionId .found) => o.manager.Opens sessionId
  | .manager (.tryLock k) => ∀ removal ∈ o.manager.removals[k]?,
      match removal.phase with
      | .erased removed => o.manager.held removed = true ∨ o.manager.Unused removal.sessionDir
      | _ => True
  | .beginSave i now m => (isValidMessage m → Utf8Message (stamp now m)) ∧
      ∀ p ∈ o.pending, o.manager.turnDir i ≠ some p.dir
  | _ => True

instance (o : Saving) : (e : Saving.Event) → Decidable (o.KeepsDirectories e)
  | .manager (.findEntry i .found) => inferInstanceAs (Decidable
      (∀ call ∈ o.manager.calls[i]?, o.manager.Opens call.conversation.sessionId))
  | .manager (.getOrCreate sessionId .found) =>
      inferInstanceAs (Decidable (o.manager.Opens sessionId))
  | .manager (.tryLock k) =>
      @Option.decidableForallMem _ _ (fun removal =>
        match removal with
        | ⟨_, sessionDir, .erased removed⟩ => inferInstanceAs (Decidable
            (o.manager.held removed = true ∨ o.manager.Unused sessionDir))
        | ⟨_, _, .unreserved⟩ | ⟨_, _, .checked _⟩ | ⟨_, _, .done⟩ =>
            inferInstanceAs (Decidable True)) o.manager.removals[k]?
  | .beginSave i now m => inferInstanceAs (Decidable
      ((isValidMessage m → Utf8Message (stamp now m)) ∧
        ∀ p ∈ o.pending, o.manager.turnDir i ≠ some p.dir))
  | .manager (.findEntry _ (.throws _)) | .manager (.getOrCreate _ (.throws _))
  | .manager (.restart _ _ _ _) | .manager (.reload _ _) | .manager (.register _)
  | .manager (.invoke _) | .manager (.invokeChannel _ _ _) | .manager (.enterGate _)
  | .manager (.testGate _) | .manager (.wake _) | .manager (.lockTurn _)
  | .manager (.addMessage _ _ _) | .manager (.endTurn _ _) | .manager (.releaseGate _)
  | .manager (.finish _) | .manager (.removeSession _) | .manager (.eraseEntry _)
  | .manager (.deleteDirectory _ _) | .endSave _ => inferInstanceAs (Decidable True)

/-! ## The invariant -/

/-- The message is on the disk, or its save is under way. -/
def Stored (o : Saving) (save : Save) : Prop :=
  (∃ rows, o.manager.disk.lookup save.dir = some rows ∧ save.message ∈ rows) ∨
    ∃ p ∈ o.pending, p.toSave = save

structure Intact (o : Saving) : Prop where
  clear : o.SparesWriters
  housed : ∀ e ∈ o.manager.usedEntries, ∃ path, o.manager.pathOf e = some path ∧
    (o.manager.disk.lookup path).isSome
  pending : ∀ p ∈ o.pending, o.manager.turnDir p.call = some p.dir ∧
    ∃ before, o.manager.disk.lookup p.dir = some before ∧ p.rows = before ++ [p.message]
  apart : o.pending.Pairwise fun p q => p.dir ≠ q.dir
  saved : ∀ save ∈ o.saves, ∃ call, o.manager.calls[save.call]? = some call ∧
    (call.phase.over = true ∨ ∃ e, call.phase.inHand = some e ∧
      o.manager.pathOf e = some save.dir ∧ o.Stored save)

end Saving

/-! ## How calls go on -/

/-- A call that goes on keeps its entry until it is over, and gets no other. -/
structure Phase.Goes (before after : Phase) : Prop where
  back : ∀ e, after.inHand = some e → before.inHand = some e
  on : ∀ e, before.inHand = some e → after.inHand = some e ∨ after.over = true
  ended : before.over = true → after.over = true

theorem Phase.Goes.refl (phase : Phase) : phase.Goes phase where
  back _ := id
  on _ := Or.inl
  ended := id

/-- A call without an entry that stays without one. -/
theorem Phase.goes_of_none {before after : Phase} (hbefore : before.inHand = none)
    (hafter : after.inHand = none) (hover : before.over = false) : before.Goes after where
  back e h := by
    rw [hafter] at h
    cases h
  on e h := by
    rw [hbefore] at h
    cases h
  ended h := by
    rw [hover] at h
    cases h

/-- A call that keeps its entry. -/
theorem Phase.goes_of_same {before after : Phase} (h : after.inHand = before.inHand)
    (hover : before.over = false) : before.Goes after where
  back e he := h ▸ he
  on e he := Or.inl (h.symm ▸ he)
  ended h := by
    rw [hover] at h
    cases h

/-- A call that is over. -/
theorem Phase.goes_of_over {before after : Phase} (hafter : after.inHand = none)
    (hover : after.over = true) : before.Goes after where
  back e h := by
    rw [hafter] at h
    cases h
  on e _ := Or.inr hover
  ended _ := hover

/-- No call gets an entry, and running turns run on. -/
structure CallsGo (st st' : State) : Prop where
  forward : ∀ (j : Nat) (call : Call), st.calls[j]? = some call →
    ∃ call', st'.calls[j]? = some call' ∧ call.phase.Goes call'.phase
  backward : ∀ call' ∈ st'.calls, ∃ call ∈ st.calls, call.phase.Goes call'.phase
  running : ∀ (j e a : Nat), st.phaseOf j = some (.running e a) →
    st'.phaseOf j = some (.running e a)

section

variable {st st' : State} {i : Nat}

theorem CallsGo.of_calls (h : st'.calls = st.calls) : CallsGo st st' where
  forward j call hcall := ⟨call, h ▸ hcall, .refl _⟩
  backward call' hmem := ⟨call', h ▸ hmem, .refl _⟩
  running j e a hphase := by
    rw [State.phaseOf, h]
    exact hphase

theorem goes_setPhase {before phase : Phase} (hphase : st.phaseOf i = some before)
    (hgoes : before.Goes phase) :
    (∀ (j : Nat) (call : Call), st.calls[j]? = some call →
      ∃ call', (st.setPhase i phase).calls[j]? = some call' ∧ call.phase.Goes call'.phase) ∧
    ∀ call' ∈ (st.setPhase i phase).calls, ∃ call ∈ st.calls, call.phase.Goes call'.phase := by
  obtain ⟨conversation, hi⟩ := phaseOf_eq_some.mp hphase
  refine ⟨fun j call hcall => ?_, fun call' hmem => ?_⟩
  · rw [getElem?_setPhase, hcall]
    refine ⟨_, rfl, ?_⟩
    split
    · rename_i hij
      rw [← hij, hi, Option.some.injEq] at hcall
      exact hcall ▸ hgoes
    · exact .refl _
  · rcases mem_setPhase hmem with hold | ⟨call, hcall, rfl⟩
    · exact ⟨call', hold, .refl _⟩
    · refine ⟨call, List.mem_of_getElem? hcall, ?_⟩
      rw [hi, Option.some.injEq] at hcall
      exact hcall ▸ hgoes

theorem phaseOf_setPhase_ne {phase : Phase} {j : Nat} (h : i ≠ j) :
    (st.setPhase i phase).phaseOf j = st.phaseOf j := by
  rw [State.phaseOf, State.phaseOf, getElem?_setPhase]
  simp only [h, if_false, Option.map_id']

/-- A call that does not run a turn moves. -/
theorem CallsGo.setPhase {before phase : Phase} (hphase : st.phaseOf i = some before)
    (hgoes : before.Goes phase) (hidle : ∀ e a, before ≠ .running e a) :
    CallsGo st (st.setPhase i phase) where
  forward := (goes_setPhase hphase hgoes).1
  backward := (goes_setPhase hphase hgoes).2
  running j e a hj := by
    have hne : i ≠ j := by
      intro heq
      subst heq
      rw [hphase, Option.some.injEq] at hj
      exact hidle e a hj
    rw [phaseOf_setPhase_ne hne, hj]

theorem CallsGo.hear (st : State) (heard : Bool) :
    CallsGo st { st with calls := st.calls.map (Call.hear heard) } := by
  have hgoes : ∀ call : Call, call.phase.Goes (call.hear heard).phase := by
    rintro ⟨conversation, phase⟩
    cases phase <;> first | exact .refl _ | exact Phase.goes_of_none rfl rfl rfl
  refine ⟨fun j call hcall => ⟨call.hear heard, ?_, hgoes call⟩, fun call' hmem => ?_,
    fun j e a hphase => ?_⟩
  · rw [List.getElem?_map, hcall]
    rfl
  · obtain ⟨call, hcall, rfl⟩ := List.mem_map.mp hmem
    exact ⟨call, hcall, hgoes call⟩
  · obtain ⟨conversation, hcall⟩ := phaseOf_eq_some.mp hphase
    refine phaseOf_eq_some.mpr ⟨conversation, ?_⟩
    rw [List.getElem?_map, hcall]
    rfl

theorem CallsGo.trans {st'' : State} (h : CallsGo st st') (hmore : CallsGo st' st'') :
    CallsGo st st'' where
  forward j call hcall := by
    obtain ⟨call', hcall', hgoes⟩ := h.forward j call hcall
    obtain ⟨call'', hcall'', hgoes'⟩ := hmore.forward j call' hcall'
    refine ⟨call'', hcall'', fun e he => hgoes.back e (hgoes'.back e he), fun e he => ?_,
      fun hover => hgoes'.ended (hgoes.ended hover)⟩
    rcases hgoes.on e he with hkept | hover
    · exact hgoes'.on e hkept
    · exact Or.inr (hgoes'.ended hover)
  backward call'' hmem := by
    obtain ⟨call', hcall', hgoes'⟩ := hmore.backward call'' hmem
    obtain ⟨call, hcall, hgoes⟩ := h.backward call' hcall'
    refine ⟨call, hcall, fun e he => hgoes.back e (hgoes'.back e he), fun e he => ?_,
      fun hover => hgoes'.ended (hgoes.ended hover)⟩
    rcases hgoes.on e he with hkept | hover
    · exact hgoes'.on e hkept
    · exact Or.inr (hgoes'.ended hover)
  running j e a hphase := hmore.running j e a (h.running j e a hphase)

/-- A call moves after a change to something else. -/
theorem CallsGo.moved {mid : State} {before phase : Phase} (hcalls : mid.calls = st.calls)
    (hphase : st.phaseOf i = some before) (hgoes : before.Goes phase)
    (hidle : ∀ e a, before ≠ .running e a) : CallsGo st (mid.setPhase i phase) := by
  have hmid : mid.phaseOf i = some before := by
    rw [State.phaseOf, hcalls]
    exact hphase
  exact (CallsGo.of_calls hcalls).trans (CallsGo.setPhase hmid hgoes hidle)

/-- A quiet step that ends no turn. -/
theorem step_callsGo {e : Event} (h : step st e = some st') (hquiet : e.quiet = true)
    (hturn : ∀ i outcome, e ≠ .endTurn i outcome) : CallsGo st st' := by
  cases e with
  | register id =>
      cases h
      refine .of_calls ?_
      unfold registerReservedSession
      split <;> rfl
  | enterGate i =>
      obtain ⟨⟨hphase, _⟩, h⟩ := Option.ite_none_right_eq_some.mp h
      split at h <;> cases h <;>
        exact .moved rfl hphase (Phase.goes_of_none rfl rfl rfl) nofun
  | testGate i =>
      obtain ⟨hphase, h⟩ := Option.ite_none_right_eq_some.mp h
      split at h <;> cases h <;>
        exact .moved rfl hphase (Phase.goes_of_none rfl rfl rfl) nofun
  | wake i =>
      have hwake : wake i st = some st' := h
      unfold wake at hwake
      split at hwake
      · rename_i hphase
        obtain ⟨_, hwake⟩ := Option.ite_none_right_eq_some.mp hwake
        cases hwake
        exact .moved rfl hphase (Phase.goes_of_none rfl rfl rfl) nofun
      · cases hwake
  | lockTurn i =>
      have hlock : lockTurn i st = some st' := h
      unfold lockTurn at hlock
      split at hlock
      · rename_i e a hphase
        obtain ⟨_, hlock⟩ := Option.ite_none_right_eq_some.mp hlock
        cases hlock
        exact .moved rfl hphase (Phase.goes_of_same rfl rfl) nofun
      · cases hlock
  | endTurn i outcome => exact absurd rfl (hturn i outcome)
  | releaseGate i =>
      have hrelease : releaseGate i st = some st' := h
      unfold releaseGate at hrelease
      split at hrelease
      · rename_i entry result hphase
        obtain ⟨_, hrelease⟩ := Option.ite_none_right_eq_some.mp hrelease
        cases hrelease
        obtain ⟨conversation, hcall⟩ := phaseOf_eq_some.mp hphase
        have hheard : State.phaseOf { st with calls := st.calls.map (Call.hear true) } i =
            some (.leaving entry result) := by
          refine phaseOf_eq_some.mpr ⟨conversation, ?_⟩
          rw [List.getElem?_map, hcall]
          rfl
        refine (CallsGo.hear st true).trans
          (.moved ?_ hheard (Phase.goes_of_same rfl rfl) nofun)
        rfl
      · cases hrelease
  | finish i =>
      have hfinish : finish i st = some st' := h
      unfold finish at hfinish
      split at hfinish
      · rename_i entry result hphase
        cases hfinish
        refine .moved ?_ hphase (Phase.goes_of_over rfl rfl) nofun
        cases entry <;> rfl
      · cases hfinish
  | _ => cases hquiet

end

/-! ## The invariant over the steps -/

section

variable {st : State}

theorem State.turnDir_eq_some {i : Nat} {dir : Location} : st.turnDir i = some dir ↔
    ∃ e a, st.phaseOf i = some (.running e a) ∧ st.pathOf e = some dir := by
  unfold State.turnDir
  constructor
  · intro h
    split at h
    · rename_i e a hphase
      exact ⟨e, a, hphase, h⟩
    · cases h
  · rintro ⟨e, a, hphase, hpath⟩
    rw [hphase]
    exact hpath

theorem State.used_of_inHand {j e : Nat} {call : Call} (hcall : st.calls[j]? = some call)
    (h : call.phase.inHand = some e) : e ∈ st.usedEntries :=
  mem_usedEntries.mpr (Or.inr ⟨call, List.mem_of_getElem? hcall, h⟩)

theorem State.used_of_lookup (st : State) {sessionId : Str} {e : Nat}
    (h : st.sessions.lookup sessionId = some e) : e ∈ st.usedEntries :=
  mem_usedEntries.mpr (Or.inl ⟨sessionId, h⟩)

end

namespace Saving

variable {o : Saving} {st' : State}

/-- What a step of the manager has to leave: entries that come into use have their directory,
which no removal is about to delete; those in use before keep theirs with the rows in it;
calls go on. -/
theorem Intact.mono (h : Intact o)
    (hused : ∀ e ∈ st'.usedEntries, e ∈ o.manager.usedEntries ∨
      ∃ path, st'.pathOf e = some path ∧ (st'.disk.lookup path).isSome ∧
        ∀ removal ∈ st'.removals, removal.phase = .checked false → ¬ removal.sessionDir <+: path)
    (hpath : ∀ e path, o.manager.pathOf e = some path → st'.pathOf e = some path)
    (hlookup : ∀ e ∈ o.manager.usedEntries, ∀ path, o.manager.pathOf e = some path →
      ∀ rows, o.manager.disk.lookup path = some rows → st'.disk.lookup path = some rows)
    (hremovals : ∀ removal ∈ st'.removals, removal.phase = .checked false →
      removal ∈ o.manager.removals ∨ o.manager.Unused removal.sessionDir)
    (hcalls : ∀ (j : Nat) (call : Call), o.manager.calls[j]? = some call →
      ∃ call', st'.calls[j]? = some call' ∧
        (∀ e, call.phase.inHand = some e →
          call'.phase.inHand = some e ∨ call'.phase.over = true) ∧
        (call.phase.over = true → call'.phase.over = true))
    (hrunning : ∀ p ∈ o.pending, ∀ e a, o.manager.phaseOf p.call = some (.running e a) →
      st'.phaseOf p.call = some (.running e a)) : Intact { o with manager := st' } where
  clear removal hremoval hphase e he path' hpath' := by
    rcases hused e he with hold | ⟨path, hnew, _, hapart⟩
    · obtain ⟨path, hentry, _⟩ := h.housed e hold
      have hsame : path = path' := Option.some.inj ((hpath e path hentry).symm.trans hpath')
      subst hsame
      rcases hremovals removal hremoval hphase with hbefore | hunused
      · exact h.clear removal hbefore hphase e hold path hentry
      · exact hunused e hold path hentry
    · have hsame : path = path' := Option.some.inj (hnew.symm.trans hpath')
      exact hsame ▸ hapart removal hremoval hphase
  housed e he := by
    rcases hused e he with hold | ⟨path, hnew, hdir, _⟩
    · obtain ⟨path, hentry, hdir⟩ := h.housed e hold
      obtain ⟨rows, hrows⟩ := Option.isSome_iff_exists.mp hdir
      refine ⟨path, hpath e path hentry, ?_⟩
      rw [hlookup e hold path hentry rows hrows]
      rfl
    · exact ⟨path, hnew, hdir⟩
  pending p hp := by
    obtain ⟨hdir, before, hrows, hsave⟩ := h.pending p hp
    obtain ⟨e, a, hphase, hentry⟩ := State.turnDir_eq_some.mp hdir
    obtain ⟨conversation, hcall⟩ := phaseOf_eq_some.mp hphase
    have hinUse : e ∈ o.manager.usedEntries := State.used_of_inHand hcall rfl
    exact ⟨State.turnDir_eq_some.mpr ⟨e, a, hrunning p hp e a hphase, hpath e _ hentry⟩,
      before, hlookup e hinUse _ hentry before hrows, hsave⟩
  apart := h.apart
  saved save hsave := by
    obtain ⟨call, hcall, hstate⟩ := h.saved save hsave
    obtain ⟨call', hcall', hon, hover⟩ := hcalls save.call call hcall
    refine ⟨call', hcall', ?_⟩
    rcases hstate with hended | ⟨e, hhand, hentry, hstored⟩
    · exact Or.inl (hover hended)
    · rcases hon e hhand with hkept | hended
      · refine Or.inr ⟨e, hkept, hpath e _ hentry, ?_⟩
        rcases hstored with ⟨rows, hrows, hmem⟩ | hpending
        · have hinUse : e ∈ o.manager.usedEntries := State.used_of_inHand hcall hhand
          exact Or.inl ⟨rows, hlookup e hinUse _ hentry rows hrows, hmem⟩
        · exact Or.inr hpending
      · exact Or.inl hended

theorem pathOf_quiet (h : Quiet o.manager st') (e : Nat) (path : Location)
    (hpath : o.manager.pathOf e = some path) : st'.pathOf e = some path := by
  obtain ⟨entry, hentry, rfl⟩ := Option.map_eq_some_iff.mp hpath
  obtain ⟨entry', hentry', hsame⟩ := h.entry_kept hentry
  rw [State.pathOf, hentry', Option.map_some, (SessionEntry.unlocked_inj hsame).2.2.1]

/-- Nothing moves but calls, and no call gets an entry. -/
theorem Intact.calm (h : Intact o)
    (hsessions : ∀ sessionId e, st'.sessions.lookup sessionId = some e →
      o.manager.sessions.lookup sessionId = some e)
    (hpath : ∀ e path, o.manager.pathOf e = some path → st'.pathOf e = some path)
    (hdisk : st'.disk = o.manager.disk)
    (hremovals : ∀ removal ∈ st'.removals, removal.phase = .checked false →
      removal ∈ o.manager.removals)
    (hforward : ∀ (j : Nat) (call : Call), o.manager.calls[j]? = some call →
      ∃ call', st'.calls[j]? = some call' ∧ call.phase.Goes call'.phase)
    (hbackward : ∀ call' ∈ st'.calls, (∃ call ∈ o.manager.calls, call.phase.Goes call'.phase) ∨
      call'.phase.inHand = none)
    (hrunning : ∀ p ∈ o.pending, ∀ e a, o.manager.phaseOf p.call = some (.running e a) →
      st'.phaseOf p.call = some (.running e a)) : Intact { o with manager := st' } := by
  refine h.mono (fun e he => Or.inl ?_) hpath ?_ (fun removal hmem hphase => Or.inl ?_)
    (fun j call hcall => ?_) hrunning
  · rcases State.mem_usedEntries.mp he with ⟨sessionId, hlookup⟩ | ⟨call', hmem, hhand⟩
    · exact State.used_of_lookup _ (hsessions sessionId e hlookup)
    · rcases hbackward call' hmem with ⟨call, hcall, hgoes⟩ | hnone
      · exact State.mem_usedEntries.mpr (Or.inr ⟨call, hcall, hgoes.back e hhand⟩)
      · rw [hnone] at hhand
        cases hhand
  · intro e _ path _ rows hrows
    rwa [hdisk]
  · exact hremovals removal hmem hphase
  · obtain ⟨call', hcall', hgoes⟩ := hforward j call hcall
    exact ⟨call', hcall', hgoes.on, hgoes.ended⟩

theorem Intact.quiet (h : Intact o) {e : Session.Event}
    (hstep : Session.step o.manager e = some st') (hquiet : e.quiet = true)
    (hturn : ∀ i outcome, e ≠ .endTurn i outcome) : Intact { o with manager := st' } := by
  have hsame := step_quiet hstep hquiet
  have hgo := step_callsGo hstep hquiet hturn
  refine h.calm (fun sessionId e hlookup => ?_) (pathOf_quiet hsame) hsame.histories.1
    (fun removal hmem _ => hsame.removals ▸ hmem) hgo.forward
    (fun call' hmem => Or.inl (hgo.backward call' hmem)) fun p _ => hgo.running p.call
  rwa [hsame.registry.1] at hlookup

/-- A turn ends when its call has no save under way. -/
theorem Intact.endTurn (h : Intact o) {i : Nat} {outcome : TurnEnd}
    (hidle : ¬ o.pending.any (·.call = i) = true)
    (hstep : endTurn i outcome o.manager = some st') : Intact { o with manager := st' } := by
  have hsame := quiet_endTurn hstep
  obtain ⟨e, a, phase, mid, hphase, hcalls, hgoes, rfl⟩ : ∃ e a phase, ∃ mid : State,
      o.manager.phaseOf i = some (.running e a) ∧ mid.calls = o.manager.calls ∧
        (Phase.running e a).Goes phase ∧ st' = mid.setPhase i phase := by
    unfold Session.endTurn at hstep
    split at hstep
    · rename_i conversation e a hcall
      have hphase := phaseOf_eq_some.mpr ⟨conversation, hcall⟩
      cases outcome with
      | returns text =>
          cases hstep
          refine ⟨e, a, _, _, hphase, ?_, ?_, rfl⟩
          · rfl
          · exact Phase.goes_of_same rfl rfl
      | throwsStd what =>
          cases hstep
          refine ⟨e, a, _, _, hphase, ?_, ?_, rfl⟩
          · rfl
          · exact Phase.goes_of_same rfl rfl
      | throwsOther =>
          cases hstep
          refine ⟨e, a, _, _, hphase, ?_, ?_, rfl⟩
          · rfl
          · exact Phase.goes_of_over rfl rfl
    · cases hstep
  have hmid : mid.phaseOf i = some (.running e a) := by
    rw [State.phaseOf, hcalls]
    exact hphase
  have hgo := goes_setPhase hmid hgoes
  rw [hcalls] at hgo
  refine h.calm (fun sessionId e hlookup => ?_) (pathOf_quiet hsame) hsame.histories.1
    (fun removal hmem _ => hsame.removals ▸ hmem) hgo.1
    (fun call' hmem => Or.inl (hgo.2 call' hmem)) fun p hp b c hrunning => ?_
  · rwa [hsame.registry.1] at hlookup
  · have hne : i ≠ p.call := by
      rintro rfl
      exact hidle (List.any_eq_true.mpr ⟨p, hp, decide_eq_true rfl⟩)
    rw [phaseOf_setPhase_ne hne, State.phaseOf, hcalls]
    exact hrunning

theorem Intact.reload (h : Intact o) (newConfig : AgentConfig) (constructed : Bool) :
    Intact { o with manager := reloadAgent newConfig constructed o.manager } := by
  refine reloadAgent_keeps (motive := fun st => Intact { o with manager := st }) h ?_
    fun st h => ⟨h.clear, h.housed, h.pending, h.apart, h.saved⟩
  have hgo := CallsGo.hear o.manager false
  exact h.calm (fun _ _ => id) (fun _ _ => id) rfl (fun _ hmem _ => hmem) hgo.forward
    (fun call' hmem => Or.inl (hgo.backward call' hmem)) fun p _ => hgo.running p.call

theorem Intact.arrive (h : Intact o) (conversation : Conversation) :
    Intact { o with manager := arrive conversation o.manager } := by
  have hforward : ∀ (j : Nat) (call : Call), o.manager.calls[j]? = some call →
      (Session.arrive conversation o.manager).calls[j]? = some call := by
    intro j call hcall
    rw [Session.arrive, List.getElem?_append_left (List.getElem?_eq_some_iff.mp hcall).1, hcall]
  refine h.calm (fun _ _ => id) (fun _ _ => id) rfl (fun _ hmem _ => hmem)
    (fun j call hcall => ⟨call, hforward j call hcall, .refl _⟩) (fun call' hmem => ?_)
    fun p _ e a hphase => ?_
  · rcases List.mem_append.mp hmem with hold | hnew
    · exact Or.inl ⟨call', hold, .refl _⟩
    · rw [List.mem_singleton.mp hnew]
      refine Or.inr ?_
      dsimp only
      split <;> rfl
  · obtain ⟨caller, hcall⟩ := phaseOf_eq_some.mp hphase
    exact phaseOf_eq_some.mpr ⟨caller, hforward p.call _ hcall⟩

/-! ### Lookups -/

theorem lookup_made {dir path : Location} {disk : Disk} {rows : List Message}
    (h : disk.lookup path = some rows) :
    (disk.createDirectories dir).lookup path = some rows := by
  rw [Disk.lookup_createDirectories]
  split
  · rename_i hpath
    rw [← hpath, h]
    rfl
  · exact h

theorem Intact.create (h : Intact o) {sessionId : Str}
    (hnone : o.manager.sessions.lookup sessionId = none) (hopens : o.manager.Opens sessionId) :
    Intact { o with manager := createEntry sessionId o.manager } := by
  refine h.mono (fun e he => ?_) (fun e path hpath => ?_)
    (fun e _ path _ rows hrows => lookup_made hrows) (fun removal hmem _ => Or.inl hmem)
    (fun j call hcall => ⟨call, hcall, fun _ => Or.inl, id⟩)
    fun _ _ _ _ => id
  · rcases State.mem_usedEntries.mp he with ⟨id, hlookup⟩ | ⟨call, hcall, hhand⟩
    · rcases createEntry_lookup hlookup with ⟨rfl, rfl⟩ | ⟨_, hold⟩
      · refine Or.inr ⟨o.manager.sessionDirectory id, ?_, ?_, hopens hnone⟩
        · rw [State.pathOf, createEntry_new]
          rfl
        · rw [createEntry]
          dsimp only
          rw [Disk.lookup_createDirectories, if_pos rfl]
          rfl
      · exact Or.inl (State.used_of_lookup _ hold)
    · exact Or.inl (State.mem_usedEntries.mpr (Or.inr ⟨call, hcall, hhand⟩))
  · obtain ⟨entry, hentry, rfl⟩ := Option.map_eq_some_iff.mp hpath
    rw [State.pathOf, createEntry_old sessionId o.manager hentry]
    rfl

theorem Intact.lookup (h : Intact o) {sessionId : Str} {outcome : Lookup}
    (hopens : outcome = .found → o.manager.Opens sessionId) :
    Intact { o with manager := lookupEntry sessionId o.manager outcome } := by
  cases outcome with
  | found =>
      exact lookupEntry_keeps (motive := fun st => Intact { o with manager := st }) .found h
        (fun hnone => h.create hnone (hopens rfl)) nofun
  | throws made =>
      rw [lookupEntry, abandonEntry]
      split
      · exact h.mono (fun e he => Or.inl he) (fun _ _ => id)
          (fun _ _ _ _ rows hrows => lookup_made hrows) (fun _ hmem _ => Or.inl hmem)
          (fun j call hcall => ⟨call, hcall, fun _ => Or.inl, id⟩) fun _ _ _ _ => id
      · exact h

theorem bindCall_inHand (i : Nat) (sessionId : Str) (st : State) :
    ∃ phase, bindCall i sessionId st = (boundState sessionId st).setPhase i phase ∧
      ∀ e, phase.inHand = some e → e = (findOrCreateEntry sessionId st).2 := by
  unfold bindCall boundState
  dsimp only
  split
  · exact ⟨_, rfl, fun e he => (Option.some.inj he).symm⟩
  · exact ⟨_, rfl, nofun⟩

/-- A call that is given an entry, or fails, in the place of one that waits for it. -/
theorem Intact.handed (h : Intact o) {i : Nat} {phase : Phase}
    (hphase : o.manager.phaseOf i = some .admitted)
    (hhand : ∀ e, phase.inHand = some e → e ∈ o.manager.usedEntries) :
    Intact { o with manager := o.manager.setPhase i phase } := by
  refine h.mono (fun e he => Or.inl ?_) (fun _ _ => id) (fun _ _ _ _ _ => id)
    (fun _ hmem _ => Or.inl hmem) (fun j call hj => ?_) fun p _ e a hrunning => ?_
  · rcases State.mem_usedEntries.mp he with ⟨id, hlookup⟩ | ⟨call, hmem, hhand'⟩
    · exact State.used_of_lookup o.manager hlookup
    · rcases mem_setPhase hmem with hold | ⟨before, _, rfl⟩
      · exact State.mem_usedEntries.mpr (Or.inr ⟨call, hold, hhand'⟩)
      · exact hhand e hhand'
  · rw [getElem?_setPhase, hj]
    refine ⟨_, rfl, ?_⟩
    split
    · rename_i hij
      subst hij
      rw [State.phaseOf, hj, Option.map_some, Option.some.injEq] at hphase
      rw [hphase]
      exact ⟨nofun, nofun⟩
    · exact ⟨fun _ => Or.inl, id⟩
  · have hne : i ≠ p.call := by
      rintro rfl
      rw [hphase] at hrunning
      cases hrunning
    rw [phaseOf_setPhase_ne hne, hrunning]

theorem Intact.rebound (h : Intact o) (e : Nat) (st : State) :
    Intact { o with manager := o.manager.modifyEntry e (rebind st) } := by
  refine h.calm (fun _ _ => id) (fun j path hpath => ?_) rfl (fun _ hmem _ => hmem)
    (fun j call hcall => ⟨call, hcall, .refl _⟩) (fun call hmem => Or.inl ⟨call, hmem, .refl _⟩)
    fun _ _ _ _ => id
  obtain ⟨entry, hentry, rfl⟩ := Option.map_eq_some_iff.mp hpath
  rw [State.pathOf, getElem?_modifyEntry, hentry, Option.map_some, Option.map_some]
  split
  · rw [(rebind_kept st entry).2.1]
  · rfl

theorem Intact.findEntry (h : Intact o) {i : Nat} {outcome : Lookup}
    (hkeeps : o.KeepsDirectories (.manager (.findEntry i outcome)))
    (hstep : findEntry i outcome o.manager = some st') : Intact { o with manager := st' } := by
  obtain ⟨conversation, hcall, ⟨rfl, rfl⟩ | ⟨made, rfl, rfl⟩⟩ := findEntry_spec hstep
  · obtain ⟨phase, hbind, hhand⟩ := bindCall_inHand i conversation.sessionId o.manager
    obtain ⟨hlookup, hcalls, _⟩ := findOrCreateEntry_spec conversation.sessionId o.manager
    have hfound : Intact
        { o with manager := (findOrCreateEntry conversation.sessionId o.manager).1 } :=
      h.lookup fun (_ : Lookup.found = .found) => hkeeps _ hcall
    rw [hbind]
    refine (hfound.rebound _ _).handed ?_ fun e he => ?_
    · exact phaseOf_eq_some.mpr ⟨conversation, (congrArg (·[i]?) hcalls).trans hcall⟩
    · rw [hhand e he]
      exact State.used_of_lookup (boundState conversation.sessionId o.manager) hlookup
  · have hleft : Intact
        { o with manager := lookupEntry conversation.sessionId o.manager (.throws made) } := by
      apply h.lookup
      intro hfound
      cases hfound
    have hcalls : (lookupEntry conversation.sessionId o.manager (.throws made)).calls =
        o.manager.calls := by
      rw [lookupEntry, abandonEntry]
      split <;> rfl
    apply hleft.handed (phaseOf_eq_some.mpr ⟨conversation, hcalls ▸ hcall⟩)
    intro e he
    cases he

/-! ### Removals -/

theorem Intact.checkReserved (h : Intact o) (sessionId : Str) :
    Intact { o with manager := checkReserved sessionId o.manager } := by
  unfold Session.checkReserved
  split
  · exact h
  · refine h.calm (fun _ _ => id) (fun _ _ => id) rfl (fun removal hmem hphase => ?_)
      (fun j call hcall => ⟨call, hcall, .refl _⟩) (fun call hmem => Or.inl ⟨call, hmem, .refl _⟩)
      fun _ _ _ _ => id
    rcases List.mem_append.mp hmem with hold | hnew
    · exact hold
    · rw [List.mem_singleton.mp hnew] at hphase
      cases hphase

theorem Intact.eraseEntry (h : Intact o) {k : Nat} (hstep : eraseEntry k o.manager = some st') :
    Intact { o with manager := st' } := by
  obtain ⟨sessionId, dir, _, rfl⟩ := eraseEntry_spec hstep
  refine h.calm (fun id e hlookup => (lookup_of_erase hlookup).2) (fun _ _ => id) rfl
    (fun removal hmem hphase => ?_) (fun j call hcall => ⟨call, hcall, .refl _⟩)
    (fun call hmem => Or.inl ⟨call, hmem, .refl _⟩) fun _ _ _ _ => id
  rcases removals_setRemovalPhase hmem with hold | ⟨before, _, rfl⟩
  · exact hold
  · cases hphase

/-- The one step that lets a directory be deleted. -/
theorem Intact.tryLock (h : Intact o) {k : Nat}
    (hkeeps : o.KeepsDirectories (.manager (.tryLock k)))
    (hstep : tryLock k o.manager = some st') : Intact { o with manager := st' } := by
  obtain ⟨sessionId, dir, removed, hk, rfl⟩ := tryLock_spec hstep
  refine h.mono (fun e he => Or.inl he) (fun _ _ => id) (fun _ _ _ _ _ => id)
    (fun removal hmem hphase => ?_) (fun j call hcall => ⟨call, hcall, fun _ => Or.inl, id⟩)
    fun _ _ _ _ => id
  obtain ⟨j, hj⟩ := List.mem_iff_getElem?.mp hmem
  rw [State.setRemovalPhase, List.getElem?_modify] at hj
  obtain ⟨before, hbefore, hremoval⟩ := Option.map_eq_some_iff.mp hj
  split at hremoval
  · rename_i hkj
    subst hkj
    rw [hk, Option.some.injEq] at hbefore
    subst hbefore hremoval
    have hfree : o.manager.held removed = false := RemovalPhase.checked.inj hphase
    rcases hkeeps _ hk with hheld | hunused
    · rw [hfree] at hheld
      cases hheld
    · exact Or.inr hunused
  · exact Or.inl (hremoval ▸ List.mem_of_getElem? hbefore)

/-- The deletion finds no entry in use. -/
theorem Intact.deleteDirectory (h : Intact o) {k : Nat} {deletion : Deletion}
    (hstep : deleteDirectory k deletion o.manager = some st') :
    Intact { o with manager := st' } := by
  obtain ⟨sessionId, dir, skipDisk, hk, rfl⟩ := deleteDirectory_spec hstep
  refine h.mono (fun e he => Or.inl he) (fun _ _ => id) (fun e he path hpath rows hrows => ?_)
    (fun removal hmem hphase => Or.inl ?_) (fun j call hcall => ⟨call, hcall, fun _ => Or.inl, id⟩)
    fun _ _ _ _ => id
  · cases skipDisk with
    | true => exact hrows
    | false =>
        have hapart := h.clear _ (List.mem_of_getElem? hk) rfl e he path hpath
        exact (Disk.lookup_removeBelow ..).mpr ⟨hrows, fun hbelow => hapart hbelow.1⟩
  · rcases removals_setRemovalPhase hmem with hold | ⟨before, _, rfl⟩
    · exact hold
    · cases hphase

/-! ### Saves -/

theorem pathOf_recordMessage (e : Nat) (conversation : Conversation) (now : Str) (m : Message)
    (entry : SessionEntry) (st : State) (j : Nat) :
    (recordMessage e conversation now m entry st).pathOf j = st.pathOf j := by
  rw [State.pathOf, State.pathOf, recordMessage_entries, Option.map_map]
  refine Option.map_congr fun before _ => ?_
  dsimp only [Function.comp]
  split <;> rfl

/-- The memory of the engine changes, the disk does not. -/
theorem Intact.remembered (h : Intact o) {e : Nat} (conversation : Conversation) (now : Str)
    (m : Message) (entry : SessionEntry) :
    Intact { o with manager :=
      { recordMessage e conversation now m entry o.manager with disk := o.manager.disk } } := by
  refine h.calm (fun _ _ => id) (fun j path hpath => ?_) rfl (fun _ hmem _ => hmem)
    (fun j call hcall => ⟨call, hcall, .refl _⟩) (fun call hmem => Or.inl ⟨call, hmem, .refl _⟩)
    fun _ _ _ _ => id
  exact (pathOf_recordMessage e conversation now m entry o.manager j).trans hpath

/-- A save that has read the file. -/
theorem Intact.push (h : Intact o) {p : PendingSave} {before : List Message}
    (hdir : o.manager.turnDir p.call = some p.dir)
    (hrows : o.manager.disk.lookup p.dir = some before) (hsave : p.rows = before ++ [p.message])
    (hapart : ∀ q ∈ o.pending, q.dir ≠ p.dir) :
    Intact { o with pending := o.pending ++ [p], saves := o.saves ++ [p.toSave] } where
  clear := h.clear
  housed := h.housed
  pending q hq := by
    rcases List.mem_append.mp hq with hold | hnew
    · exact h.pending q hold
    · rw [List.mem_singleton.mp hnew]
      exact ⟨hdir, before, hrows, hsave⟩
  apart := by
    refine List.pairwise_append.mpr ⟨h.apart, List.pairwise_singleton .., fun q hq r hr => ?_⟩
    rw [List.mem_singleton.mp hr]
    exact hapart q hq
  saved save hmem := by
    rcases List.mem_append.mp hmem with hold | hnew
    · obtain ⟨call, hcall, hended | ⟨e, hhand, hentry, hstored⟩⟩ := h.saved save hold
      · exact ⟨call, hcall, Or.inl hended⟩
      · refine ⟨call, hcall, Or.inr ⟨e, hhand, hentry, ?_⟩⟩
        rcases hstored with honDisk | ⟨q, hq, hsame⟩
        · exact Or.inl honDisk
        · exact Or.inr ⟨q, List.mem_append_left _ hq, hsame⟩
    · rw [List.mem_singleton.mp hnew]
      obtain ⟨e, a, hphase, hentry⟩ := State.turnDir_eq_some.mp hdir
      obtain ⟨conversation, hcall⟩ := phaseOf_eq_some.mp hphase
      exact ⟨_, hcall, Or.inr ⟨e, rfl, hentry,
        Or.inr ⟨p, List.mem_append_right _ (List.mem_singleton.mpr rfl), rfl⟩⟩⟩

theorem Intact.beginSave (h : Intact o) {i : Nat} {now : Str} {m : Message} {o' : Saving}
    (hkeeps : o.KeepsDirectories (.beginSave i now m)) (hstep : o.beginSave i now m = some o') :
    Intact o' := by
  obtain ⟨conversation, e, a, entry, hcall, _, hentry, rfl⟩ := beginSave_spec hstep
  have hremembered := h.remembered (e := e) conversation now m entry
  by_cases hvalid : isValidMessage m = true
  · have hpath : o.manager.pathOf e = some entry.storagePath := by
      rw [State.pathOf, hentry]
      rfl
    have hdir : o.manager.turnDir i = some entry.storagePath :=
      State.turnDir_eq_some.mpr ⟨e, a, phaseOf_eq_some.mpr ⟨conversation, hcall⟩, hpath⟩
    obtain ⟨path, hentry', hhoused⟩ := h.housed e (State.used_of_inHand hcall rfl)
    obtain ⟨rows, hrows⟩ := Option.isSome_iff_exists.mp hhoused
    have hsame : path = entry.storagePath := Option.some.inj (hentry'.symm.trans hpath)
    subst hsame
    rw [if_pos ⟨hvalid, hkeeps.1 hvalid⟩, if_pos hvalid, hrows]
    refine hremembered.push ?_ hrows rfl fun q hq hsame => ?_
    · exact State.turnDir_eq_some.mpr ⟨e, a, phaseOf_eq_some.mpr ⟨conversation, hcall⟩,
        (pathOf_recordMessage e conversation now m entry o.manager e).trans hpath⟩
    · exact hkeeps.2 q hq (hdir.trans (congrArg some hsame.symm))
  · rw [if_neg fun hboth => hvalid hboth.1, if_neg hvalid, List.append_nil, List.append_nil]
    exact hremembered

/-- Two saves under way in one directory are the same. -/
theorem Intact.pending_inj (h : Intact o) {p q : PendingSave} (hp : p ∈ o.pending)
    (hq : q ∈ o.pending) (hdir : p.dir = q.dir) : p = q := by
  have hsymm : Std.Symm fun p q : PendingSave => p.dir ≠ q.dir := ⟨fun _ _ => Ne.symm⟩
  by_contra hne
  exact h.apart.forall hp hq hne hdir

theorem Intact.endSave (h : Intact o) {i : Nat} {o' : Saving} (hstep : o.endSave i = some o') :
    Intact o' := by
  obtain ⟨p, hfound, rfl⟩ := Option.map_eq_some_iff.mp hstep
  have hp : p ∈ o.pending := List.mem_of_find?_eq_some hfound
  have hcall : p.call = i := by simpa using List.find?_some hfound
  obtain ⟨hdir, before, hrows, hsave⟩ := h.pending p hp
  dsimp only
  rw [hrows, Option.map_some]
  have hwritten : ∀ path rows, o.manager.disk.lookup path = some rows →
      (o.manager.disk.write p.dir (some p.rows)).lookup path =
        some (if path = p.dir then p.rows else rows) := by
    intro path rows hpath
    have hlookup := lookup_write o.manager.disk p.dir path p.rows
    rw [hrows, hpath] at hlookup
    rw [apply_ite some]
    exact hlookup
  refine ⟨h.clear, fun e he => ?_, fun q hq => ?_, h.apart.sublist List.filter_sublist,
    fun save hmem => ?_⟩
  · obtain ⟨path, hentry, hhoused⟩ := h.housed e he
    obtain ⟨rows, hrows'⟩ := Option.isSome_iff_exists.mp hhoused
    refine ⟨path, hentry, ?_⟩
    dsimp only
    rw [hwritten path rows hrows']
    rfl
  · obtain ⟨hq, hother⟩ := List.mem_filter.mp hq
    obtain ⟨hdir', before', hrows', hsave'⟩ := h.pending q hq
    refine ⟨hdir', before', ?_, hsave'⟩
    dsimp only
    rw [hwritten _ _ hrows', if_neg]
    intro hsame
    rw [h.pending_inj hq hp hsame, hcall] at hother
    exact of_decide_eq_true hother rfl
  · obtain ⟨call, hsaving, hended | ⟨e, hhand, hentry, hstored⟩⟩ := h.saved save hmem
    · exact ⟨call, hsaving, Or.inl hended⟩
    · refine ⟨call, hsaving, Or.inr ⟨e, hhand, hentry, ?_⟩⟩
      rcases hstored with ⟨rows, hrows', hmessage⟩ | ⟨q, hq, rfl⟩
      · refine Or.inl ⟨_, hwritten _ _ hrows', ?_⟩
        split
        · rename_i hsame
          rw [hsame, hrows, Option.some.injEq] at hrows'
          rw [hsave]
          exact List.mem_append_left _ (hrows' ▸ hmessage)
        · exact hmessage
      · by_cases hsame : q.dir = p.dir
        · have heq : q = p := h.pending_inj hq hp hsame
          subst heq
          refine Or.inl ⟨_, hwritten _ _ hrows, ?_⟩
          rw [if_pos rfl, hsave]
          exact List.mem_append_right _ (List.mem_singleton.mpr rfl)
        · refine Or.inr ⟨q, List.mem_filter.mpr ⟨hq, decide_eq_true fun hi => hsame ?_⟩, rfl⟩
          have hdir' := (h.pending q hq).1
          rw [hi, ← hcall, hdir, Option.some.injEq] at hdir'
          exact hdir'.symm

/-! ### Runs -/

/-- A new process has no removals under way, and the directories of its entries are made. -/
theorem Intact.restart {env : Env} {config : AgentConfig} {names : List (Str × Lookup)}
    {defaultOutcome : Lookup}
    (hstep : restart env config names defaultOutcome o.manager = some st') :
    Intact { manager := st' } := by
  have hstarted : st'.removals = [] ∧ Intact { manager := st' } := by
    refine restart_keeps (motive := fun st => st.removals = [] ∧ Intact { manager := st })
      (fun sessionId st outcome h => ⟨?_, ?_⟩) (fun st h => ?_) hstep ?_
    · exact lookupEntry_keeps (motive := fun st => st.removals = []) outcome h.1 (fun _ => h.1)
        fun _ => h.1
    · refine h.2.lookup fun _ _ removal hmem => ?_
      rw [h.1] at hmem
      cases hmem
    · exact ⟨h.1, h.2.clear, h.2.housed, h.2.pending, h.2.apart, h.2.saved⟩
    · exact ⟨rfl, nofun, nofun, nofun, .nil, nofun⟩
  exact hstarted.2

/-- A step of the manager: a restart, or one that leaves the saves alone. -/
theorem step_manager {e : Session.Event} {o' : Saving} (h : o.step (.manager e) = some o') :
    (∃ env config names defaultOutcome st', e = .restart env config names defaultOutcome ∧
      restart env config names defaultOutcome o.manager = some st' ∧ o' = { manager := st' }) ∨
    ∃ st', Session.step o.manager e = some st' ∧ o' = { o with manager := st' } ∧
      (∀ env config names defaultOutcome, e ≠ .restart env config names defaultOutcome) ∧
      (∀ i now m, e ≠ .addMessage i now m) ∧
      ∀ i outcome, e = .endTurn i outcome → ¬ o.pending.any (·.call = i) = true := by
  cases e with
  | restart env config names defaultOutcome =>
      obtain ⟨st', hst', rfl⟩ := Option.map_eq_some_iff.mp h
      exact Or.inl ⟨env, config, names, defaultOutcome, st', rfl, hst', rfl⟩
  | addMessage i now m => cases h
  | endTurn i outcome =>
      obtain ⟨hidle, h⟩ := Option.ite_none_left_eq_some.mp h
      obtain ⟨st', hst', rfl⟩ := Option.map_eq_some_iff.mp h
      refine Or.inr ⟨st', hst', rfl, nofun, nofun, fun j outcome' heq => ?_⟩
      cases heq
      exact hidle
  | _ =>
      unfold step at h
      obtain ⟨st', hst', rfl⟩ := Option.map_eq_some_iff.mp h
      exact Or.inr ⟨st', hst', rfl, nofun, nofun, nofun⟩

theorem Intact.manage (h : Intact o) {e : Session.Event}
    (hkeeps : o.KeepsDirectories (.manager e)) (hstep : Session.step o.manager e = some st')
    (hrestart : ∀ env config names defaultOutcome, e ≠ .restart env config names defaultOutcome)
    (hadd : ∀ i now m, e ≠ .addMessage i now m)
    (hturn : ∀ i outcome, e = .endTurn i outcome → ¬ o.pending.any (·.call = i) = true) :
    Intact { o with manager := st' } := by
  cases e with
  | restart env config names defaultOutcome => exact (hrestart _ _ _ _ rfl).elim
  | reload newConfig constructed =>
      cases hstep
      exact h.reload newConfig constructed
  | invoke sessionId =>
      cases hstep
      exact h.arrive _
  | invokeChannel channel chatId sessionId =>
      cases hstep
      exact h.arrive _
  | findEntry i outcome => exact h.findEntry hkeeps hstep
  | addMessage i now m => exact (hadd i now m rfl).elim
  | endTurn i outcome => exact h.endTurn (hturn i outcome rfl) hstep
  | getOrCreate sessionId outcome =>
      cases hstep
      refine h.lookup fun hfound => ?_
      subst hfound
      exact hkeeps
  | removeSession sessionId =>
      cases hstep
      exact h.checkReserved sessionId
  | eraseEntry k => exact h.eraseEntry hstep
  | tryLock k => exact h.tryLock hkeeps hstep
  | deleteDirectory k deletion => exact h.deleteDirectory hstep
  | _ => exact h.quiet hstep rfl nofun

theorem Intact.step (h : Intact o) {e : Saving.Event} {o' : Saving} (hkeeps : o.KeepsDirectories e)
    (hstep : o.step e = some o') : Intact o' := by
  cases e with
  | manager e =>
      rcases step_manager hstep with ⟨env, config, names, defaultOutcome, st', _, hst', rfl⟩ |
        ⟨st', hst', rfl, hrestart, hadd, hturn⟩
      · exact Intact.restart hst'
      · exact h.manage hkeeps hst' hrestart hadd hturn
  | beginSave i now m => exact h.beginSave hkeeps hstep
  | endSave i => exact h.endSave hstep

theorem intact_run (h : Run Saving.step KeepsDirectories {} o) : Intact o :=
  h.invariant (motive := Intact) ⟨nofun, nofun, nofun, .nil, nofun⟩
    fun _ _ _ hintact hkeeps hstep => hintact.step hkeeps hstep

/-- The call that returns success has no save under way. -/
theorem Intact.keepsMessages (h : Intact o) : o.KeepsMessages := by
  intro i o' result hstep _ _ save hmem hcall
  rcases step_manager hstep with ⟨_, _, _, _, _, hrestart, _⟩ | ⟨st', hfinish, rfl, _⟩
  · cases hrestart
  subst hcall
  have hdisk : st'.disk = o.manager.disk := (step_quiet hfinish rfl).histories.1
  obtain ⟨entry, result', hphase⟩ : ∃ entry result',
      o.manager.phaseOf save.call = some (.released entry result') := by
    unfold Session.step finish at hfinish
    dsimp only at hfinish
    split at hfinish
    · rename_i entry result' hphase
      exact ⟨entry, result', hphase⟩
    · cases hfinish
  obtain ⟨call, hcall, hstate⟩ := h.saved save hmem
  have hreleased : call.phase = .released entry result' := by
    rw [State.phaseOf, hcall] at hphase
    exact Option.some.inj hphase
  rcases hstate with hover | ⟨e, _, _, honDisk | ⟨p, hp, hsame⟩⟩
  · rw [hreleased] at hover
    cases hover
  · rw [hdisk]
    exact honDisk
  · obtain ⟨_, _, hrunning, _⟩ := State.turnDir_eq_some.mp (h.pending p hp).1
    rw [hsame, hphase] at hrunning
    cases hrunning

/-- Where a removal deletes no directory that is in use, no directory that is about to be
deleted is that of an entry in use, and what a call has added is on the disk when it returns
success. -/
theorem removal_spares_writers (h : Run Saving.step KeepsDirectories {} o) :
    o.SparesWriters ∧ o.KeepsMessages :=
  ⟨(intact_run h).clear, (intact_run h).keepsMessages⟩

/-- A call has its entry and waits for the lock when the removal tries it. The message it adds
then has no directory to go to. -/
theorem removal_deletes_under_writer :
    (¬ ∀ o, Run Saving.step AnyStep {} o → o.SparesWriters) ∧
      ¬ ∀ o, Run Saving.step AnyStep {} o → o.KeepsMessages := by
  constructor
  · intro h
    obtain ⟨o, hrun, hmet⟩ := exists_run_of_any Saving.step AnyStep {}
      (p := fun o => ¬ o.SparesWriters)
      [.manager (.restart ⟨lit "/srv", none⟩ {} [] .found), .manager (.invoke (lit "s1")),
        .manager (.enterGate 0), .manager (.testGate 0), .manager (.findEntry 0 .found),
        .manager (.removeSession (lit "s1")), .manager (.eraseEntry 0), .manager (.tryLock 0)]
      (by decide +kernel)
    exact hmet (h o hrun)
  · intro h
    obtain ⟨o, hrun, hlost⟩ := exists_run_of_any Saving.step AnyStep {}
      (p := fun o => (o.step (.manager (.finish 0))).any fun o' => decide
        ((o'.manager.phaseOf 0 = some (.returned ⟨lit "s1", true, [], lit "hi"⟩)) ∧
          ∃ save ∈ o'.saves, save.call = 0 ∧ o'.manager.disk.lookup save.dir = none))
      [.manager (.restart ⟨lit "/srv", none⟩ {} [] .found), .manager (.invoke (lit "s1")),
        .manager (.enterGate 0), .manager (.testGate 0), .manager (.findEntry 0 .found),
        .manager (.removeSession (lit "s1")), .manager (.eraseEntry 0), .manager (.tryLock 0),
        .manager (.deleteDirectory 0 .complete), .manager (.lockTurn 0),
        .beginSave 0 (lit "1") { role := lit "user", content := lit "hello" }, .endSave 0,
        .manager (.endTurn 0 (.returns (lit "hi"))), .manager (.releaseGate 0)]
      (by decide +kernel)
    obtain ⟨o', hstep, hlost⟩ := (Option.any_eq_true _ _).mp hlost
    obtain ⟨hreturned, save, hmem, hcall, hnone⟩ := of_decide_eq_true hlost
    obtain ⟨rows, hrows, _⟩ := h o hrun 0 o' _ hstep hreturned rfl save hmem hcall
    rw [hnone] at hrows
    cases hrows

/-- A session whose turn has ended is removed while another one saves. -/
theorem removal_spares_other_session : ∃ o, Run Saving.step KeepsDirectories {} o ∧
    (o.manager.removals.map (·.phase) = [.checked false] ∧ o.pending.map (·.call) = [1]) ∧
    o.SparesWriters ∧ o.KeepsMessages := by
  obtain ⟨o, hrun, hmet⟩ := exists_run_of_any Saving.step KeepsDirectories {}
    (p := fun o => o.manager.removals.map (·.phase) = [.checked false] ∧
      o.pending.map (·.call) = [1])
    [.manager (.restart ⟨lit "/srv", none⟩ {} [] .found), .manager (.invoke (lit "s1")),
      .manager (.enterGate 0), .manager (.testGate 0), .manager (.findEntry 0 .found),
      .manager (.lockTurn 0),
      .beginSave 0 (lit "1") { role := lit "user", content := lit "hello" }, .endSave 0,
      .manager (.endTurn 0 (.returns (lit "hi"))), .manager (.releaseGate 0),
      .manager (.finish 0), .manager (.invoke (lit "s2")), .manager (.enterGate 1),
      .manager (.testGate 1), .manager (.findEntry 1 .found), .manager (.lockTurn 1),
      .beginSave 1 (lit "2") { role := lit "user", content := lit "hello" },
      .manager (.removeSession (lit "s1")), .manager (.eraseEntry 0), .manager (.tryLock 0)]
    (by decide +kernel)
  exact ⟨o, hrun, hmet, removal_spares_writers hrun⟩

end Saving

end JiuwenCore.Session
