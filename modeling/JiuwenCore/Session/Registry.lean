import JiuwenCore.Session.Steps

/-!
# The registry and the disk

What lookups find in the disk after the operations on it, and the invariant that the
registry keeps in every run: it finds entries under their own ids, and a call has been
given an entry of its own session.
-/

namespace JiuwenCore.Session

open ContextEngine

/-! ## The disk -/

namespace Disk

theorem lookup_createDirectories (dir key : Location) (disk : Disk) :
    (disk.createDirectories dir).lookup key =
      if key = dir then some ((disk.lookup dir).getD []) else disk.lookup key := by
  unfold createDirectories
  split
  · rename_i hkey
    rw [hkey]
    exact AList.lookup_insert disk
  · rename_i hkey
    exact AList.lookup_insert_ne hkey

theorem lookup_removeBelow (dir : Location) (gone : Location → Bool) (disk : Disk)
    (key : Location) (rows : List Message) :
    (disk.removeBelow dir gone).lookup key = some rows ↔
      disk.lookup key = some rows ∧ ¬ (dir <+: key ∧ gone key) := by
  have hmem : ∀ disk : Disk, disk.lookup key = some rows ↔ ⟨key, rows⟩ ∈ disk.entries :=
    fun disk => AList.mem_lookup_iff
  rw [hmem, hmem, removeBelow, List.mem_filter, decide_eq_true_iff]

/-- A removal leaves a history alone if and only if there is none, or it lies elsewhere. -/
theorem lookup_removeBelow_eq_iff (dir key : Location) (gone : Location → Bool) (disk : Disk) :
    (disk.removeBelow dir gone).lookup key = disk.lookup key ↔
      ((disk.lookup key).isSome → ¬ (dir <+: key ∧ gone key)) := by
  cases h : disk.lookup key with
  | none =>
      refine iff_of_true ?_ nofun
      refine Option.eq_none_iff_forall_ne_some.mpr fun rows hrows => ?_
      rw [((lookup_removeBelow dir gone disk key rows).mp hrows).1] at h
      cases h
  | some rows =>
      rw [lookup_removeBelow, h]
      exact ⟨fun hkept _ => hkept.2, fun hkept => ⟨rfl, hkept rfl⟩⟩

theorem mem_namesIn (dir : Location) (disk : Disk) (name : Str) :
    name ∈ disk.namesIn dir ↔
      ∃ key, (disk.lookup key).isSome ∧ dir <+: key ∧ key[dir.length]? = some name := by
  rw [namesIn, List.mem_dedup, List.mem_filterMap]
  refine exists_congr fun key => ?_
  rw [AList.lookup_isSome, ← AList.mem_keys]
  refine and_congr_right fun _ => ?_
  split
  · rename_i hdir
    rw [and_iff_right hdir]
  · rename_i hdir
    simp [hdir]

end Disk

/-! ## The entries of the registry -/

theorem mem_registered {st : State} {e : Nat} : e ∈ st.sessions.entries.map (·.2) ↔
    ∃ sessionId, st.sessions.lookup sessionId = some e := by
  rw [List.mem_map]
  constructor
  · rintro ⟨⟨sessionId, _⟩, hrow, rfl⟩
    exact ⟨sessionId, AList.mem_lookup_iff.mpr hrow⟩
  · rintro ⟨sessionId, hlookup⟩
    exact ⟨⟨sessionId, e⟩, AList.mem_lookup_iff.mp hlookup, rfl⟩

/-! ## Histories -/

/-- What a new entry loads. -/
theorem newEntry_buffer (sessionId : Str) (st : State) : (newEntry sessionId st).memoryBuffer =
    trimOrphanTrailingToolCalls ((st.disk.lookup (st.sessionDirectory sessionId)).getD []) := rfl

/-- What a message appends to the buffer. -/
def accepted (now : Str) (m : Message) : List Message :=
  if isValidMessage m then [stamp now m] else []

/-- What a message appends to the file. -/
def saved (now : Str) (m : Message) : List Message :=
  if isValidMessage m ∧ Utf8Message (stamp now m) then [stamp now m] else []

theorem saved_sublist (now : Str) (m : Message) : (saved now m).Sublist (accepted now m) := by
  unfold saved accepted
  split
  · rename_i h
    rw [if_pos h.1]
  · exact List.nil_sublist _

section

variable (e : Nat) (conversation : Conversation) (now : Str) (m : Message) (entry : SessionEntry)
  (st : State)

theorem recordMessage_journal : (recordMessage e conversation now m entry st).journal =
    st.journal ++ (accepted now m).map (.added conversation) := by
  unfold recordMessage accepted
  split <;> rfl

theorem recordMessage_entries (j : Nat) :
    (recordMessage e conversation now m entry st).entries[j]? = (st.entries[j]?).map fun entry' =>
      if e = j then { entry' with memoryBuffer := entry.memoryBuffer ++ accepted now m }
      else entry' := by
  have hbuffer : (ContextEngine.addMessage jsonStorage now m
      { memoryBuffer := entry.memoryBuffer
        storage := st.disk.lookup entry.storagePath }).memoryBuffer =
      entry.memoryBuffer ++ accepted now m := by
    unfold ContextEngine.addMessage accepted
    split
    · rfl
    · exact (List.append_nil _).symm
  rw [recordMessage, getElem?_modifyEntry]
  simp only [hbuffer]

theorem recordMessage_lookup (key : Location) :
    (recordMessage e conversation now m entry st).disk.lookup key =
      if key = entry.storagePath then (st.disk.lookup key).map (· ++ saved now m)
      else st.disk.lookup key := by
  have hstorage : (ContextEngine.addMessage jsonStorage now m
      { memoryBuffer := entry.memoryBuffer
        storage := st.disk.lookup entry.storagePath }).storage =
      (st.disk.lookup entry.storagePath).map (· ++ saved now m) := by
    unfold ContextEngine.addMessage saved
    split
    · rename_i hvalid
      dsimp only [jsonStorage]
      rw [isValidMessage_stamp]
      split
      · rfl
      · simp
    · rename_i hvalid
      rw [if_neg fun h => hvalid h.1]
      simp
  have hdisk : (recordMessage e conversation now m entry st).disk =
      st.disk.write entry.storagePath
        ((st.disk.lookup entry.storagePath).map (· ++ saved now m)) :=
    congrArg (fun kept => st.disk.write entry.storagePath kept) hstorage
  rw [hdisk]
  by_cases hkey : key = entry.storagePath
  · subst hkey
    rw [if_pos rfl]
    cases hrows : st.disk.lookup entry.storagePath with
    | none => exact hrows
    | some rows => exact AList.lookup_insert _
  · rw [if_neg hkey]
    cases st.disk.lookup entry.storagePath with
    | none => rfl
    | some rows => exact AList.lookup_insert_ne hkey

end

theorem sessionDirectory_eq (st : State) (sessionId : Str) :
    st.sessionDirectory sessionId = st.root ++ [lit "sessions", sanitizePathName sessionId] :=
  sessionLocation_eq ..

/-! ## The registry -/

/-- The registry finds every session under its id, and a call has an entry of its own
session. -/
structure Assigned (st : State) : Prop where
  registered : ∀ sessionId e, st.sessions.lookup sessionId = some e →
    ∃ entry, st.entries[e]? = some entry ∧ entry.sessionId = sessionId
  assigned : ∀ call ∈ st.calls, ∀ e a, call.phase.turn = some (e, a) →
    ∃ entry, st.entries[e]? = some entry ∧ entry.sessionId = call.conversation.sessionId

section

variable {st st' : State} {i : Nat}

/-- The entry of a turn is that of the call's session. -/
theorem Assigned.entry_of_turn (h : Assigned st) {call : Call} {e a : Nat} {entry : SessionEntry}
    (hcall : call ∈ st.calls) (hturn : call.phase.turn = some (e, a))
    (hentry : st.entries[e]? = some entry) : entry.sessionId = call.conversation.sessionId := by
  obtain ⟨entry', hentry', hid⟩ := h.assigned call hcall e a hturn
  rw [hentry, Option.some.injEq] at hentry'
  exact hentry' ▸ hid

/-- Entries that keep their ids. -/
theorem Assigned.of_entries (h : Assigned st)
    (hentries : ∀ (e : Nat) (entry : SessionEntry), st.entries[e]? = some entry →
      ∃ entry', st'.entries[e]? = some entry' ∧ entry'.sessionId = entry.sessionId)
    (hsessions : ∀ sessionId e, st'.sessions.lookup sessionId = some e →
      st.sessions.lookup sessionId = some e)
    (hcalls : ∀ call' ∈ st'.calls, ∀ e a, call'.phase.turn = some (e, a) →
      ∃ call ∈ st.calls, call.conversation = call'.conversation ∧
        call.phase.turn = some (e, a)) : Assigned st' := by
  refine ⟨fun sessionId e hlookup => ?_, fun call' hcall' e a hturn' => ?_⟩
  · obtain ⟨entry, hentry, hid⟩ := h.registered sessionId e (hsessions sessionId e hlookup)
    obtain ⟨entry', hentry', hsame⟩ := hentries e entry hentry
    exact ⟨entry', hentry', hsame.trans hid⟩
  · obtain ⟨call, hcall, hconversation, hturn⟩ := hcalls call' hcall' e a hturn'
    obtain ⟨entry, hentry, hid⟩ := h.assigned call hcall e a hturn
    obtain ⟨entry', hentry', hsame⟩ := hentries e entry hentry
    exact ⟨entry', hentry', (hsame.trans hid).trans (congrArg _ hconversation)⟩

theorem Assigned.quiet (h : Assigned st) (hquiet : Quiet st st') : Assigned st' := by
  refine h.of_entries (fun e entry he => ?_) (fun sessionId e hlookup => ?_)
    fun call' hcall' e a hturn' => ?_
  · obtain ⟨entry', hentry', hsame⟩ := hquiet.entry_kept he
    exact ⟨entry', hentry', (SessionEntry.unlocked_inj hsame).1⟩
  · rwa [hquiet.registry.1] at hlookup
  · obtain ⟨call, hcall, hconversation, hturn⟩ := hquiet.mem hcall'
    exact ⟨call, hcall, hconversation.symm, hturn _ hturn'⟩

/-- What a new entry leaves as it was. -/
theorem createEntry_old (sessionId : Str) (st : State) {e : Nat} {entry : SessionEntry}
    (he : st.entries[e]? = some entry) : (createEntry sessionId st).entries[e]? = some entry := by
  rw [createEntry, List.getElem?_append_left (List.getElem?_eq_some_iff.mp he).1, he]

theorem createEntry_lookup {sessionId id : Str} {e : Nat}
    (h : (createEntry sessionId st).sessions.lookup id = some e) :
    (id = sessionId ∧ e = st.entries.length) ∨ (id ≠ sessionId ∧ st.sessions.lookup id = some e) := by
  by_cases hid : id = sessionId
  · subst hid
    rw [createEntry, AList.lookup_insert, Option.some.injEq] at h
    exact Or.inl ⟨rfl, h.symm⟩
  · rw [createEntry, AList.lookup_insert_ne hid] at h
    exact Or.inr ⟨hid, h⟩

theorem createEntry_new (sessionId : Str) (st : State) :
    (createEntry sessionId st).entries[st.entries.length]? = some (newEntry sessionId st) :=
  List.getElem?_concat_length ..

theorem Assigned.lookup (h : Assigned st) (sessionId : Str) (outcome : Lookup) :
    Assigned (lookupEntry sessionId st outcome) := by
  refine lookupEntry_keeps outcome h (fun _ => ?_) fun _ => ⟨h.registered, h.assigned⟩
  refine ⟨fun id e hlookup => ?_, fun call hcall e a hturn => ?_⟩
  · rcases createEntry_lookup hlookup with ⟨rfl, rfl⟩ | ⟨_, hold⟩
    · exact ⟨newEntry id st, createEntry_new id st, rfl⟩
    · obtain ⟨entry, hentry, hid⟩ := h.registered id e hold
      exact ⟨entry, createEntry_old sessionId st hentry, hid⟩
  · obtain ⟨entry, hentry, hid⟩ := h.assigned call hcall e a hturn
    exact ⟨entry, createEntry_old sessionId st hentry, hid⟩

/-- Another agent is all a rebound entry gets. -/
theorem rebind_kept (st : State) (entry : SessionEntry) :
    (rebind st entry).sessionId = entry.sessionId ∧
      (rebind st entry).storagePath = entry.storagePath ∧
      (rebind st entry).memoryBuffer = entry.memoryBuffer := by
  unfold rebind
  split
  · split <;> exact ⟨rfl, rfl, rfl⟩
  · exact ⟨rfl, rfl, rfl⟩

/-- The entries of a bound call are those of the lookup, up to an agent. -/
theorem mem_boundState {sessionId : Str} {entry' : SessionEntry}
    (h : entry' ∈ (boundState sessionId st).entries) :
    ∃ entry ∈ (findOrCreateEntry sessionId st).1.entries,
      entry'.sessionId = entry.sessionId ∧ entry'.storagePath = entry.storagePath ∧
        entry'.memoryBuffer = entry.memoryBuffer := by
  obtain ⟨j, hj⟩ := List.mem_iff_getElem?.mp h
  rw [boundState, getElem?_modifyEntry] at hj
  obtain ⟨entry, hentry, rfl⟩ := Option.map_eq_some_iff.mp hj
  refine ⟨entry, List.mem_of_getElem? hentry, ?_⟩
  split
  · exact rebind_kept _ entry
  · exact ⟨rfl, rfl, rfl⟩

theorem Assigned.bound (h : Assigned st) (sessionId : Str) : Assigned (boundState sessionId st) := by
  have hfound : Assigned (findOrCreateEntry sessionId st).1 := h.lookup sessionId .found
  refine hfound.of_entries (fun e entry he => ?_) (fun _ _ => id) fun call hcall e a hturn =>
    ⟨call, hcall, rfl, hturn⟩
  rw [boundState, getElem?_modifyEntry, he]
  refine ⟨_, rfl, ?_⟩
  split
  · exact (rebind_kept _ entry).1
  · rfl

theorem Assigned.findEntry (h : Assigned st) {outcome : Lookup}
    (hstep : findEntry i outcome st = some st') : Assigned st' := by
  obtain ⟨conversation, hcall, ⟨rfl, rfl⟩ | ⟨made, rfl, rfl⟩⟩ := findEntry_spec hstep
  · obtain ⟨phase, hbind, hphase⟩ := bindCall_spec i conversation.sessionId st
    obtain ⟨hlookup, hcalls, _⟩ := findOrCreateEntry_spec conversation.sessionId st
    have hbound := h.bound conversation.sessionId
    rw [hbind]
    refine ⟨hbound.registered, fun call hmem e a hturn => ?_⟩
    rcases mem_setPhase hmem with hmem | ⟨before, hbefore, rfl⟩
    · exact hbound.assigned call hmem e a hturn
    · rw [show (boundState conversation.sessionId st).calls = st.calls from hcalls, hcall,
        Option.some.injEq] at hbefore
      subst hbefore
      rcases hphase with ⟨b, _, rfl⟩ | hnone
      · cases hturn
        exact hbound.registered _ _ hlookup
      · rw [show phase.turn = some (e, a) from hturn] at hnone
        cases hnone
  · have hleft := h.lookup conversation.sessionId (.throws made)
    refine ⟨hleft.registered, fun call hmem e a hturn => ?_⟩
    rcases mem_setPhase hmem with hmem | ⟨before, _, rfl⟩
    · exact hleft.assigned call hmem e a hturn
    · cases hturn

theorem Assigned.addMessage (h : Assigned st) {now : Str} {m : Message}
    (hstep : addMessage i now m st = some st') : Assigned st' := by
  obtain ⟨conversation, e, a, entry, _, _, rfl⟩ := addMessage_spec hstep
  refine h.of_entries (fun j entry' hentry' => ?_) (fun _ _ => id) fun call hcall j b hturn =>
    ⟨call, hcall, rfl, hturn⟩
  rw [recordMessage, getElem?_modifyEntry, hentry']
  refine ⟨_, rfl, ?_⟩
  split <;> rfl

theorem Assigned.reload (h : Assigned st) (newConfig : AgentConfig) (constructed : Bool) :
    Assigned (reloadAgent newConfig constructed st) :=
  reloadAgent_keeps h (h.quiet (quiet_hear st false)) fun _ h => ⟨h.registered, h.assigned⟩

/-- A call that enters has been given nothing. -/
theorem arrive_calls {conversation : Conversation} {call : Call}
    (h : call ∈ (arrive conversation st).calls) :
    call ∈ st.calls ∨ call.conversation = conversation ∧ call.phase.turn = none := by
  rcases List.mem_append.mp h with hmem | hmem
  · exact Or.inl hmem
  · rw [List.mem_singleton.mp hmem]
    refine Or.inr ⟨rfl, ?_⟩
    dsimp only
    split <;> rfl

theorem Assigned.arrive (h : Assigned st) (conversation : Conversation) :
    Assigned (arrive conversation st) := by
  refine ⟨h.registered, fun call hmem e a hturn => ?_⟩
  rcases arrive_calls hmem with hmem | ⟨_, hnone⟩
  · exact h.assigned call hmem e a hturn
  · rw [hnone] at hturn
    cases hturn

theorem lookup_of_erase {sessionId id : Str} {e : Nat}
    (h : (st.sessions.erase sessionId).lookup id = some e) :
    id ≠ sessionId ∧ st.sessions.lookup id = some e := by
  have hid : id ≠ sessionId := by
    intro heq
    subst heq
    rw [AList.lookup_erase] at h
    cases h
  rw [AList.lookup_erase_ne hid] at h
  exact ⟨hid, h⟩

theorem Assigned.step (h : Assigned st) {e : Event} (hstep : step st e = some st') :
    Assigned st' := by
  cases e with
  | restart env config names defaultOutcome =>
      exact restart_keeps (fun sessionId _ outcome h => h.lookup sessionId outcome)
        (fun _ h => ⟨h.registered, h.assigned⟩) hstep ⟨nofun, nofun⟩
  | reload newConfig constructed =>
      cases hstep
      exact h.reload newConfig constructed
  | invoke sessionId =>
      cases hstep
      exact h.arrive _
  | invokeChannel channel chatId sessionId =>
      cases hstep
      exact h.arrive _
  | findEntry i outcome => exact h.findEntry hstep
  | addMessage i now m => exact h.addMessage hstep
  | getOrCreate sessionId outcome =>
      cases hstep
      exact h.lookup sessionId outcome
  | removeSession sessionId =>
      cases hstep
      unfold checkReserved
      split
      · exact h
      · exact ⟨h.registered, h.assigned⟩
  | eraseEntry k =>
      obtain ⟨sessionId, _, _, rfl⟩ := eraseEntry_spec hstep
      exact ⟨fun id e hlookup => h.registered id e (lookup_of_erase hlookup).2, h.assigned⟩
  | tryLock k =>
      obtain ⟨_, _, _, _, rfl⟩ := tryLock_spec hstep
      exact ⟨h.registered, h.assigned⟩
  | deleteDirectory k deletion =>
      obtain ⟨_, _, _, _, rfl⟩ := deleteDirectory_spec hstep
      exact ⟨h.registered, h.assigned⟩
  | _ => exact h.quiet (step_quiet hstep rfl)

end

theorem assigned_run {ok : State → Event → Prop} {st : State} (h : Run step ok {} st) :
    Assigned st :=
  h.invariant (motive := Assigned) ⟨nofun, nofun⟩ fun _ _ _ hassigned _ hstep =>
    hassigned.step hstep

end JiuwenCore.Session
