import JiuwenCore.Lib.Runs
import JiuwenCore.Session.Manager

/-!
# What the steps of the manager leave alone

Most steps of a call touch the gate and the locks only: the registry, the histories and
the agents stay, and no call gets hold of an entry it did not have. `Quiet` says so once,
for all of them. The other steps get a lemma each.
-/

namespace JiuwenCore.Session

open ContextEngine

/-! ## Calls and entries -/

/-- The entry and the agent a call has been given. -/
def Phase.turn : Phase → Option (Nat × Nat)
  | bound e a => some (e, a)
  | running e a => some (e, a)
  | _ => none

/-- An entry without its locks. -/
def SessionEntry.unlocked (entry : SessionEntry) : SessionEntry :=
  { entry with invokeMutex := none, isBusy := false }

theorem SessionEntry.unlocked_inj {entry entry' : SessionEntry}
    (h : entry.unlocked = entry'.unlocked) :
    entry.sessionId = entry'.sessionId ∧ entry.agent = entry'.agent ∧
      entry.storagePath = entry'.storagePath ∧ entry.memoryBuffer = entry'.memoryBuffer := by
  simp only [SessionEntry.unlocked, SessionEntry.mk.injEq] at h
  exact ⟨h.1, h.2.1, h.2.2.1, h.2.2.2.1⟩

section

variable {st : State} {i : Nat} {phase : Phase}

theorem phaseOf_eq_some : st.phaseOf i = some phase ↔
    ∃ conversation, st.calls[i]? = some ⟨conversation, phase⟩ := by
  unfold State.phaseOf
  constructor
  · intro h
    obtain ⟨⟨conversation, _⟩, hcall, rfl⟩ := Option.map_eq_some_iff.mp h
    exact ⟨conversation, hcall⟩
  · rintro ⟨conversation, h⟩
    rw [h]
    rfl

theorem getElem?_setPhase (j : Nat) : (st.setPhase i phase).calls[j]? =
    (st.calls[j]?).map fun call => if i = j then { call with phase := phase } else call := by
  rw [State.setPhase, List.getElem?_modify]
  split <;> simp

theorem getElem?_modifyEntry (e j : Nat) (f : SessionEntry → SessionEntry) :
    (st.modifyEntry e f).entries[j]? =
      (st.entries[j]?).map fun entry => if e = j then f entry else entry := by
  rw [State.modifyEntry, List.getElem?_modify]
  split <;> simp

end

/-! ## The registry -/

section

variable {sessionId : Str} {st : State}

theorem findOrCreateEntry_found {e : Nat} (h : st.sessions.lookup sessionId = some e) :
    findOrCreateEntry sessionId st = (st, e) := by
  rw [findOrCreateEntry, h]

theorem findOrCreateEntry_new (h : st.sessions.lookup sessionId = none) :
    findOrCreateEntry sessionId st = (createEntry sessionId st, st.entries.length) := by
  rw [findOrCreateEntry, h]

/-- What a lookup keeps: it does nothing, creates the entry, or leaves a directory behind. -/
theorem lookupEntry_keeps {motive : State → Prop} (outcome : Lookup) (hsame : motive st)
    (hcreate : st.sessions.lookup sessionId = none → motive (createEntry sessionId st))
    (hmake : outcome = .throws true → motive (makeDirectory sessionId st)) :
    motive (lookupEntry sessionId st outcome) := by
  cases outcome with
  | found =>
      rw [lookupEntry]
      cases h : st.sessions.lookup sessionId with
      | none =>
          rw [findOrCreateEntry_new h]
          exact hcreate h
      | some e =>
          rw [findOrCreateEntry_found h]
          exact hsame
  | throws made =>
      rw [lookupEntry, abandonEntry]
      split
      · rename_i h
        exact hmake (h.1 ▸ rfl)
      · exact hsame

/-- What the lookups of the names keep is kept by the restore loop. -/
theorem restore_keeps {motive : State → Prop} (names : List (Str × Lookup))
    (hlookup : ∀ name ∈ names, ∀ st, motive st → motive (lookupEntry name.1 st name.2))
    (st : State) (h : motive st) :
    motive (names.foldl (fun st name => restoreEntry st name.1 name.2) st) := by
  induction names generalizing st with
  | nil => exact h
  | cons name names ih =>
      obtain ⟨hfirst, hrest⟩ := List.forall_mem_cons.mp hlookup
      refine ih hrest _ ?_
      dsimp only
      unfold restoreEntry
      split
      · exact hfirst st h
      · exact h

theorem restart_keeps {motive : State → Prop}
    (hlookup : ∀ sessionId st outcome, motive st → motive (lookupEntry sessionId st outcome))
    (hready : ∀ st, motive st → motive { st with initialized := true })
    {env : Env} {config : AgentConfig} {names : List (Str × Lookup)} {defaultOutcome : Lookup}
    {st st' : State} (h : restart env config names defaultOutcome st = some st')
    (hboot : motive (boot env config st)) : motive st' := by
  obtain ⟨_, h⟩ := Option.ite_none_right_eq_some.mp h
  cases h
  have hrestored := restore_keeps names (fun name _ st => hlookup name.1 st name.2) _ hboot
  exact hready _ (hlookup _ _ _ hrestored)

end

/-! ## Turns -/

section

variable {st st' : State} {i : Nat}

/-- One call moves, the others stay. -/
theorem mem_setPhase {phase : Phase} {call : Call} (h : call ∈ (st.setPhase i phase).calls) :
    call ∈ st.calls ∨
      ∃ before, st.calls[i]? = some before ∧ call = { before with phase := phase } := by
  obtain ⟨j, hj⟩ := List.mem_iff_getElem?.mp h
  rw [getElem?_setPhase] at hj
  obtain ⟨before, hbefore, rfl⟩ := Option.map_eq_some_iff.mp hj
  split
  · rename_i hij
    exact Or.inr ⟨before, hij ▸ hbefore, rfl⟩
  · exact Or.inl (List.mem_of_getElem? hbefore)

theorem calls_setPhase {phase : Phase} {call' : Call}
    (h : call' ∈ (st.setPhase i phase).calls) :
    ∃ call ∈ st.calls, call'.conversation = call.conversation := by
  rcases mem_setPhase h with hold | ⟨before, hbefore, rfl⟩
  · exact ⟨call', hold, rfl⟩
  · exact ⟨before, List.mem_of_getElem? hbefore, rfl⟩

theorem findEntry_spec {outcome : Lookup} (h : findEntry i outcome st = some st') :
    ∃ conversation, st.calls[i]? = some ⟨conversation, .admitted⟩ ∧
      ((outcome = .found ∧ st' = bindCall i conversation.sessionId st) ∨
        ∃ made, outcome = .throws made ∧
          st' = (lookupEntry conversation.sessionId st (.throws made)).setPhase i .thrown) := by
  unfold findEntry at h
  split at h
  · rename_i conversation hcall
    refine ⟨conversation, hcall, ?_⟩
    cases outcome with
    | found =>
        cases h
        exact Or.inl ⟨rfl, rfl⟩
    | throws made =>
        cases h
        exact Or.inr ⟨made, rfl, rfl⟩
  · cases h

/-- The entry is there, and it names its session; nothing else of a call's concern changes. -/
theorem findOrCreateEntry_spec (sessionId : Str) (st : State) :
    (findOrCreateEntry sessionId st).1.sessions.lookup sessionId =
        some (findOrCreateEntry sessionId st).2 ∧
      (findOrCreateEntry sessionId st).1.calls = st.calls ∧
      (findOrCreateEntry sessionId st).1.draining = st.draining := by
  cases h : st.sessions.lookup sessionId with
  | none =>
      rw [findOrCreateEntry_new h]
      exact ⟨AList.lookup_insert _, rfl, rfl⟩
  | some e =>
      rw [findOrCreateEntry_found h]
      exact ⟨h, rfl, rfl⟩

/-- The state in which a call is bound: the entry exists and no longer names a draining
agent. -/
def boundState (sessionId : Str) (st : State) : State :=
  let found := findOrCreateEntry sessionId st
  found.1.modifyEntry found.2 (rebind found.1)

theorem bindCall_spec (i : Nat) (sessionId : Str) (st : State) :
    ∃ phase, bindCall i sessionId st = (boundState sessionId st).setPhase i phase ∧
      ((∃ a, ((boundState sessionId st).entries[(findOrCreateEntry sessionId st).2]?).bind
          (·.agent) = some a ∧ phase = .bound (findOrCreateEntry sessionId st).2 a) ∨
        phase.turn = none) := by
  unfold bindCall boundState
  dsimp only
  split
  · rename_i a ha
    exact ⟨_, rfl, Or.inl ⟨a, ha, rfl⟩⟩
  · exact ⟨_, rfl, Or.inr rfl⟩

theorem addMessage_spec {now : Str} {m : Message} (h : addMessage i now m st = some st') :
    ∃ conversation e a entry, st.calls[i]? = some ⟨conversation, .running e a⟩ ∧
      st.entries[e]? = some entry ∧ st' = recordMessage e conversation now m entry st := by
  unfold addMessage at h
  split at h
  · rename_i conversation e a hcall
    obtain ⟨entry, hentry, rfl⟩ := Option.map_eq_some_iff.mp h
    exact ⟨conversation, e, a, entry, hcall, hentry, rfl⟩
  · cases h

end

/-! ## Removal -/

section

variable {st st' : State} {k : Nat}

/-- A removal that has come further is still that of its session. -/
theorem removals_setRemovalPhase {phase : RemovalPhase} {removal : Removal}
    (h : removal ∈ (st.setRemovalPhase k phase).removals) :
    removal ∈ st.removals ∨ ∃ before ∈ st.removals, removal = { before with phase := phase } := by
  obtain ⟨j, hj⟩ := List.mem_iff_getElem?.mp h
  rw [State.setRemovalPhase, List.getElem?_modify] at hj
  obtain ⟨before, hbefore, hremoval⟩ := Option.map_eq_some_iff.mp hj
  have hmem := List.mem_of_getElem? hbefore
  split at hremoval
  · exact Or.inr ⟨before, hmem, hremoval.symm⟩
  · exact Or.inl (hremoval ▸ hmem)

theorem eraseEntry_spec (h : eraseEntry k st = some st') :
    ∃ sessionId dir, st.removals[k]? = some ⟨sessionId, dir, .unreserved⟩ ∧
      st' = State.setRemovalPhase k (.erased (st.sessions.lookup sessionId))
        { st with sessions := st.sessions.erase sessionId } := by
  unfold eraseEntry at h
  split at h
  · rename_i sessionId dir hk
    cases h
    exact ⟨sessionId, dir, hk, rfl⟩
  · cases h

theorem tryLock_spec (h : tryLock k st = some st') :
    ∃ sessionId dir removed, st.removals[k]? = some ⟨sessionId, dir, .erased removed⟩ ∧
      st' = st.setRemovalPhase k (.checked (st.held removed)) := by
  unfold tryLock at h
  split at h
  · rename_i sessionId dir removed hk
    cases h
    exact ⟨sessionId, dir, removed, hk, rfl⟩
  · cases h

theorem deleteDirectory_spec {deletion : Deletion} (h : deleteDirectory k deletion st = some st') :
    ∃ sessionId dir skipDisk, st.removals[k]? = some ⟨sessionId, dir, .checked skipDisk⟩ ∧
      st' = State.setRemovalPhase k .done
        { st with
          disk := if skipDisk then st.disk else st.disk.removeBelow dir deletion.reaches
          journal := st.journal ++ [.removed sessionId] } := by
  unfold deleteDirectory at h
  split at h
  · rename_i sessionId dir skipDisk hk
    cases h
    exact ⟨sessionId, dir, skipDisk, hk, rfl⟩
  · cases h

end

/-! ## Quiet steps -/

/-- The same process with the same configuration. -/
structure SamePlace (st st' : State) : Prop where
  currentPath : st'.currentPath = st.currentPath
  config : st'.config = st.config
  initialized : st'.initialized = st.initialized

theorem SamePlace.trans {st st' st'' : State} (h : SamePlace st st') (h' : SamePlace st' st'') :
    SamePlace st st'' :=
  ⟨h'.currentPath.trans h.currentPath, h'.config.trans h.config,
    h'.initialized.trans h.initialized⟩

theorem SamePlace.root {st st' : State} (h : SamePlace st st') : st'.root = st.root := by
  rw [State.root, State.cwd, h.currentPath, h.config]
  rfl

/-- Locks and phases may have changed, but no call has been given an entry. -/
structure Quiet (st st' : State) : Prop where
  entries : ∀ e : Nat, (st'.entries[e]?).map SessionEntry.unlocked =
    (st.entries[e]?).map SessionEntry.unlocked
  calls : ∀ (i : Nat) (call' : Call), st'.calls[i]? = some call' → ∃ call, st.calls[i]? = some call ∧
    call'.conversation = call.conversation ∧
    ∀ turn, call'.phase.turn = some turn → call.phase.turn = some turn
  registry : st'.sessions = st.sessions ∧ st'.agent = st.agent ∧ st'.draining = st.draining ∧
    st'.agentsMade = st.agentsMade
  histories : st'.disk = st.disk ∧ st'.journal = st.journal
  paths : SamePlace st st'
  removals : st'.removals = st.removals

theorem Quiet.refl (st : State) : Quiet st st where
  entries _ := rfl
  calls _ call' h := ⟨call', h, rfl, fun _ => id⟩
  registry := ⟨rfl, rfl, rfl, rfl⟩
  histories := ⟨rfl, rfl⟩
  paths := ⟨rfl, rfl, rfl⟩
  removals := rfl

theorem Quiet.trans {st st' st'' : State} (h : Quiet st st') (h' : Quiet st' st'') :
    Quiet st st'' where
  entries e := (h'.entries e).trans (h.entries e)
  calls i call'' hcall'' := by
    obtain ⟨call', hcall', hconversation', hturn'⟩ := h'.calls i call'' hcall''
    obtain ⟨call, hcall, hconversation, hturn⟩ := h.calls i call' hcall'
    exact ⟨call, hcall, hconversation'.trans hconversation,
      fun turn ht => hturn turn (hturn' turn ht)⟩
  registry := ⟨h'.registry.1.trans h.registry.1, h'.registry.2.1.trans h.registry.2.1,
    h'.registry.2.2.1.trans h.registry.2.2.1, h'.registry.2.2.2.trans h.registry.2.2.2⟩
  histories := ⟨h'.histories.1.trans h.histories.1, h'.histories.2.trans h.histories.2⟩
  paths := h.paths.trans h'.paths
  removals := h'.removals.trans h.removals

theorem Quiet.mem {st st' : State} (h : Quiet st st') {call' : Call} (hmem : call' ∈ st'.calls) :
    ∃ call ∈ st.calls, call'.conversation = call.conversation ∧
      ∀ turn, call'.phase.turn = some turn → call.phase.turn = some turn := by
  obtain ⟨i, hi⟩ := List.mem_iff_getElem?.mp hmem
  obtain ⟨call, hcall, hconversation, hturn⟩ := h.calls i call' hi
  exact ⟨call, List.mem_of_getElem? hcall, hconversation, hturn⟩

/-- An entry of before, with other locks. -/
theorem Quiet.entry {st st' : State} (h : Quiet st st') {e : Nat} {entry' : SessionEntry}
    (he : st'.entries[e]? = some entry') :
    ∃ entry, st.entries[e]? = some entry ∧ entry'.unlocked = entry.unlocked := by
  have hsame := h.entries e
  rw [he, Option.map_some] at hsame
  obtain ⟨entry, hentry, heq⟩ := Option.map_eq_some_iff.mp hsame.symm
  exact ⟨entry, hentry, heq.symm⟩

/-- An entry stays, with other locks. -/
theorem Quiet.entry_kept {st st' : State} (h : Quiet st st') {e : Nat} {entry : SessionEntry}
    (he : st.entries[e]? = some entry) :
    ∃ entry', st'.entries[e]? = some entry' ∧ entry'.unlocked = entry.unlocked := by
  have hsame := h.entries e
  rw [he, Option.map_some] at hsame
  exact Option.map_eq_some_iff.mp hsame

/-- A call that moves keeps the entry it has, or gives it up. -/
theorem quiet_setPhase {st : State} {i : Nat} {before phase : Phase}
    (h : st.phaseOf i = some before) (hturn : phase.turn = none ∨ phase.turn = before.turn) :
    Quiet st (st.setPhase i phase) where
  entries _ := rfl
  calls j call' hcall' := by
    rw [getElem?_setPhase] at hcall'
    obtain ⟨call, hcall, rfl⟩ := Option.map_eq_some_iff.mp hcall'
    refine ⟨call, hcall, by split <;> rfl, fun turn ht => ?_⟩
    split at ht
    · rename_i hij
      obtain ⟨conversation, hbefore⟩ := phaseOf_eq_some.mp h
      rw [← hij, hbefore, Option.some.injEq] at hcall
      rcases hturn with hnone | hsame
      · rw [hnone] at ht
        cases ht
      · rw [← hcall]
        exact hsame.symm.trans ht
    · exact ht
  registry := ⟨rfl, rfl, rfl, rfl⟩
  histories := ⟨rfl, rfl⟩
  paths := ⟨rfl, rfl, rfl⟩
  removals := rfl

theorem quiet_modifyEntry (st : State) (e : Nat) {f : SessionEntry → SessionEntry}
    (hf : ∀ entry, (f entry).unlocked = entry.unlocked) : Quiet st (st.modifyEntry e f) where
  entries j := by
    rw [getElem?_modifyEntry, Option.map_map]
    refine Option.map_congr fun entry _ => ?_
    dsimp only [Function.comp]
    split
    · exact hf entry
    · rfl
  calls := (Quiet.refl st).calls
  registry := ⟨rfl, rfl, rfl, rfl⟩
  histories := ⟨rfl, rfl⟩
  paths := ⟨rfl, rfl, rfl⟩
  removals := rfl

theorem turn_hear (heard : Bool) (call : Call) :
    (call.hear heard).phase.turn = call.phase.turn ∧
      (call.hear heard).conversation = call.conversation := by
  obtain ⟨conversation, phase⟩ := call
  cases phase <;> exact ⟨rfl, rfl⟩

theorem quiet_hear (st : State) (heard : Bool) :
    Quiet st { st with calls := st.calls.map (Call.hear heard) } where
  entries _ := rfl
  calls i call' hcall' := by
    rw [List.getElem?_map] at hcall'
    obtain ⟨call, hcall, rfl⟩ := Option.map_eq_some_iff.mp hcall'
    obtain ⟨hturn, hconversation⟩ := turn_hear heard call
    exact ⟨call, hcall, hconversation, fun turn ht => hturn ▸ ht⟩
  registry := ⟨rfl, rfl, rfl, rfl⟩
  histories := ⟨rfl, rfl⟩
  paths := ⟨rfl, rfl, rfl⟩
  removals := rfl

theorem quiet_gate (st : State) (gateMutex : Option Nat) (concurrentCount : Nat) :
    Quiet st { st with gateMutex := gateMutex, concurrentCount := concurrentCount } where
  entries _ := rfl
  calls := (Quiet.refl st).calls
  registry := ⟨rfl, rfl, rfl, rfl⟩
  histories := ⟨rfl, rfl⟩
  paths := ⟨rfl, rfl, rfl⟩
  removals := rfl

theorem quiet_register (st : State) (id : Str) : Quiet st (registerReservedSession id st) := by
  unfold registerReservedSession
  split
  · exact Quiet.refl st
  · exact ⟨fun _ => rfl, (Quiet.refl st).calls, ⟨rfl, rfl, rfl, rfl⟩, ⟨rfl, rfl⟩,
      ⟨rfl, rfl, rfl⟩, rfl⟩

theorem quiet_enterGate {st st' : State} {i : Nat} (h : enterGate i st = some st') :
    Quiet st st' := by
  obtain ⟨⟨hphase, _⟩, h⟩ := Option.ite_none_right_eq_some.mp h
  split at h
  · cases h
    have hlocked := quiet_gate st (some i) st.concurrentCount
    exact hlocked.trans (quiet_setPhase hphase (Or.inl rfl))
  · cases h
    have hcounted := quiet_gate st st.gateMutex (st.concurrentCount + 1)
    exact hcounted.trans (quiet_setPhase hphase (Or.inl rfl))

theorem quiet_testGate {st st' : State} {i : Nat} (h : testGate i st = some st') :
    Quiet st st' := by
  obtain ⟨hphase, h⟩ := Option.ite_none_right_eq_some.mp h
  split at h
  · cases h
    have hcounted := quiet_gate st none (st.concurrentCount + 1)
    exact hcounted.trans (quiet_setPhase hphase (Or.inl rfl))
  · cases h
    have hunlocked := quiet_gate st none st.concurrentCount
    exact hunlocked.trans (quiet_setPhase hphase (Or.inl rfl))

theorem quiet_wake {st st' : State} {i : Nat} (h : wake i st = some st') : Quiet st st' := by
  unfold wake at h
  split at h
  · rename_i hphase
    obtain ⟨_, h⟩ := Option.ite_none_right_eq_some.mp h
    cases h
    have hlocked := quiet_gate st (some i) st.concurrentCount
    exact hlocked.trans (quiet_setPhase hphase (Or.inl rfl))
  · cases h

theorem quiet_lockTurn {st st' : State} {i : Nat} (h : lockTurn i st = some st') :
    Quiet st st' := by
  unfold lockTurn at h
  split at h
  · rename_i e a hphase
    obtain ⟨_, h⟩ := Option.ite_none_right_eq_some.mp h
    cases h
    have hlocked := quiet_modifyEntry st e
      (f := fun entry => { entry with invokeMutex := some i, isBusy := true }) fun _ => rfl
    exact hlocked.trans (quiet_setPhase hphase (Or.inr rfl))
  · cases h

theorem quiet_endTurn {st st' : State} {i : Nat} {outcome : TurnEnd}
    (h : endTurn i outcome st = some st') : Quiet st st' := by
  unfold endTurn at h
  split at h
  · rename_i e a hcall
    have hphase := phaseOf_eq_some.mpr ⟨_, hcall⟩
    have hidle := quiet_modifyEntry st e (f := fun entry => { entry with isBusy := false })
      fun _ => rfl
    have hunlocked := quiet_modifyEntry st e (f := fun entry => { entry with invokeMutex := none })
      fun _ => rfl
    cases outcome with
    | returns text =>
        cases h
        exact hidle.trans (quiet_setPhase hphase (Or.inl rfl))
    | throwsStd what =>
        cases h
        exact hidle.trans (quiet_setPhase hphase (Or.inl rfl))
    | throwsOther =>
        cases h
        exact hunlocked.trans (quiet_setPhase hphase (Or.inl rfl))
  · cases h

theorem quiet_releaseGate {st st' : State} {i : Nat} (h : releaseGate i st = some st') :
    Quiet st st' := by
  unfold releaseGate at h
  split at h
  · rename_i entry result hphase
    obtain ⟨_, h⟩ := Option.ite_none_right_eq_some.mp h
    cases h
    obtain ⟨conversation, hcall⟩ := phaseOf_eq_some.mp hphase
    have hgiven := quiet_gate st st.gateMutex (st.concurrentCount - 1)
    have hheard := quiet_hear { st with concurrentCount := st.concurrentCount - 1 } true
    have hleaving : State.phaseOf
        { st with
          concurrentCount := st.concurrentCount - 1
          calls := st.calls.map (Call.hear true) } i = some (.leaving entry result) := by
      refine phaseOf_eq_some.mpr ⟨conversation, ?_⟩
      rw [List.getElem?_map, hcall]
      rfl
    exact (hgiven.trans hheard).trans (quiet_setPhase hleaving (Or.inl rfl))
  · cases h

theorem quiet_finish {st st' : State} {i : Nat} (h : finish i st = some st') : Quiet st st' := by
  unfold finish at h
  split at h
  · rename_i entry result hphase
    cases h
    have hunlocked : Quiet st (unlock st entry) := by
      cases entry with
      | none => exact Quiet.refl st
      | some e => exact quiet_modifyEntry st e fun _ => rfl
    have hreleased : (unlock st entry).phaseOf i = some (.released entry result) := by
      cases entry <;> exact hphase
    exact hunlocked.trans (quiet_setPhase hreleased (Or.inl rfl))
  · cases h

/-- The steps that touch the gate and the locks only. -/
def Event.quiet : Event → Bool
  | register _ => true
  | enterGate _ => true
  | testGate _ => true
  | wake _ => true
  | lockTurn _ => true
  | endTurn _ _ => true
  | releaseGate _ => true
  | finish _ => true
  | _ => false

theorem step_quiet {st st' : State} {e : Event} (h : step st e = some st')
    (hquiet : e.quiet = true) : Quiet st st' := by
  cases e with
  | register id =>
      cases h
      exact quiet_register st id
  | enterGate i => exact quiet_enterGate h
  | testGate i => exact quiet_testGate h
  | wake i => exact quiet_wake h
  | lockTurn i => exact quiet_lockTurn h
  | endTurn i outcome => exact quiet_endTurn h
  | releaseGate i => exact quiet_releaseGate h
  | finish i => exact quiet_finish h
  | _ => cases hquiet

/-! ## Reload -/

/-- The new agent in the place of the old one, which drains, under the new configuration. -/
def State.swapAgent (newConfig : AgentConfig) (st : State) : State :=
  { st with
    config := newConfig
    maxConcurrent := limitOf newConfig
    draining := st.agent.toList ++ st.draining
    agent := some st.agentsMade
    agentsMade := st.agentsMade + 1 }

/-- A reload does nothing, or it swaps the agents, with or without calls that have not heard
of it. -/
theorem reloadAgent_keeps {motive : State → Prop} {newConfig : AgentConfig} {constructed : Bool}
    {st : State} (hsame : motive st)
    (hhear : motive { st with calls := st.calls.map (Call.hear false) })
    (hswap : ∀ st, motive st → motive (st.swapAgent newConfig)) :
    motive (reloadAgent newConfig constructed st) := by
  unfold reloadAgent
  split
  · dsimp only
    split
    · exact hswap _ hhear
    · exact hswap _ hsame
  · exact hsame

/-! ## The place of the process -/

theorem samePlace_lookup (sessionId : Str) (st : State) (outcome : Lookup) :
    SamePlace st (lookupEntry sessionId st outcome) :=
  lookupEntry_keeps outcome ⟨rfl, rfl, rfl⟩ (fun _ => ⟨rfl, rfl, rfl⟩) fun _ => ⟨rfl, rfl, rfl⟩

/-- Only a restart and a reload bring another configuration. -/
def Event.replaces : Event → Bool
  | restart _ _ _ _ => true
  | reload _ _ => true
  | _ => false

theorem step_samePlace {st st' : State} {e : Event} (h : step st e = some st')
    (hreplaces : e.replaces = false) : SamePlace st st' := by
  cases e with
  | restart env config names defaultOutcome => cases hreplaces
  | reload newConfig constructed => cases hreplaces
  | invoke sessionId =>
      cases h
      exact ⟨rfl, rfl, rfl⟩
  | invokeChannel channel chatId sessionId =>
      cases h
      exact ⟨rfl, rfl, rfl⟩
  | findEntry i outcome =>
      obtain ⟨conversation, _, ⟨rfl, rfl⟩ | ⟨made, rfl, rfl⟩⟩ := findEntry_spec h
      · obtain ⟨phase, hbind, _⟩ := bindCall_spec i conversation.sessionId st
        have hfound : SamePlace st (findOrCreateEntry conversation.sessionId st).1 :=
          samePlace_lookup conversation.sessionId st .found
        rw [hbind]
        exact hfound.trans ⟨rfl, rfl, rfl⟩
      · exact (samePlace_lookup conversation.sessionId st _).trans ⟨rfl, rfl, rfl⟩
  | addMessage i now m =>
      obtain ⟨_, _, _, _, _, _, rfl⟩ := addMessage_spec h
      exact ⟨rfl, rfl, rfl⟩
  | getOrCreate sessionId outcome =>
      cases h
      exact samePlace_lookup sessionId st outcome
  | removeSession sessionId =>
      cases h
      unfold checkReserved
      split <;> exact ⟨rfl, rfl, rfl⟩
  | eraseEntry k =>
      obtain ⟨_, _, _, rfl⟩ := eraseEntry_spec h
      exact ⟨rfl, rfl, rfl⟩
  | tryLock k =>
      obtain ⟨_, _, _, _, rfl⟩ := tryLock_spec h
      exact ⟨rfl, rfl, rfl⟩
  | deleteDirectory k deletion =>
      obtain ⟨_, _, _, _, rfl⟩ := deleteDirectory_spec h
      exact ⟨rfl, rfl, rfl⟩
  | _ => exact (step_quiet h rfl).paths

end JiuwenCore.Session
