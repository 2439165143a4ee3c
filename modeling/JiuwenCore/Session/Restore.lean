import JiuwenCore.Session.Registry

/-!
# What a restart finds again

The store behind the manager maps the ids of sessions to their histories: a session is
opened, messages are added to it, it is removed. The disk is this store under another
key, the directory, as long as every id is the name of its own directory and nothing
happens to a directory behind the back of its session.
-/

namespace JiuwenCore.Session

open ContextEngine

/-! ## The store -/

/-- What a record does to the history of a session; `none` stands for no session. -/
def Record.apply (sessionId : Str) (history : Option (List Message)) :
    Record → Option (List Message)
  | opened id => if id = sessionId then some (history.getD []) else history
  | added conversation m =>
      if conversation.sessionId = sessionId then history.map (· ++ [m]) else history
  | removed id => if id = sessionId then none else history
  | called _ => history

/-- The history of a session that has not been removed. -/
def historyOf (sessionId : Str) (journal : List Record) : Option (List Message) :=
  journal.foldl (Record.apply sessionId) none

section

variable (sessionId : Str) (journal : List Record)

theorem historyOf_append (journal' : List Record) : historyOf sessionId (journal ++ journal') =
    journal'.foldl (Record.apply sessionId) (historyOf sessionId journal) :=
  List.foldl_append

@[simp] theorem historyOf_called (conversation : Conversation) :
    historyOf sessionId (journal ++ [.called conversation]) = historyOf sessionId journal :=
  historyOf_append ..

@[simp] theorem historyOf_opened (id : Str) : historyOf sessionId (journal ++ [.opened id]) =
    if id = sessionId then some ((historyOf sessionId journal).getD [])
    else historyOf sessionId journal :=
  historyOf_append ..

@[simp] theorem historyOf_removed (id : Str) : historyOf sessionId (journal ++ [.removed id]) =
    if id = sessionId then none else historyOf sessionId journal :=
  historyOf_append ..

theorem historyOf_added (conversation : Conversation) (messages : List Message) :
    historyOf sessionId (journal ++ messages.map (.added conversation)) =
      if conversation.sessionId = sessionId then
        (historyOf sessionId journal).map (· ++ messages)
      else historyOf sessionId journal := by
  rw [historyOf_append]
  generalize historyOf sessionId journal = history
  induction messages generalizing history with
  | nil => simp
  | cons m messages ih =>
      rw [List.map_cons, List.foldl_cons, ih, Record.apply]
      split
      · rw [Option.map_map]
        congr 1
        funext rows
        exact (List.append_assoc ..).trans (congrArg (rows ++ ·) (List.singleton_append ..))
      · rfl

end

/-! ## Names of their own -/

/-- An id whose directory has its name, and is not skipped when sessions are restored. -/
structure OwnName (id : Str) : Prop where
  same : sanitizePathName id = id
  visible : id.head? ≠ some 46

instance (id : Str) : Decidable (OwnName id) :=
  decidable_of_iff (sanitizePathName id = id ∧ id.head? ≠ some 46)
    ⟨fun h => ⟨h.1, h.2⟩, fun h => ⟨h.same, h.visible⟩⟩

theorem OwnName.ne_nil {id : Str} (h : OwnName id) : id ≠ [] :=
  h.same ▸ (sanitizePathName_plain id).ne_nil

theorem ownName_default : OwnName kDefaultSessionId := by decide

def homeOf (root : Location) (id : Str) : Location := root ++ [lit "sessions", id]

theorem homeOf_inj {root : Location} {a b : Str} : homeOf root a = homeOf root b ↔ a = b := by
  simp [homeOf]

theorem homeOf_prefix {root : Location} {a b : Str} :
    homeOf root a <+: homeOf root b ↔ a = b := by
  simp [homeOf, List.prefix_append_right_inj, List.cons_prefix_cons]

theorem OwnName.directory {id : Str} (h : OwnName id) {root : Location} {st : State}
    (hroot : st.root = root) : st.sessionDirectory id = homeOf root id := by
  rw [sessionDirectory_eq, hroot, h.same, homeOf]

/-! ## The disk as the store -/

/-- The disk holds the histories of the sessions that exist, and nothing else. -/
structure Mirrored (root : Location) (st : State) : Prop where
  home : ∀ id, st.disk.lookup (homeOf root id) = historyOf id st.journal
  keys : ∀ dir, (st.disk.lookup dir).isSome → ∃ id, dir = homeOf root id
  named : ∀ id, (historyOf id st.journal).isSome → OwnName id
  live : ∀ id e, st.sessions.lookup id = some e → (historyOf id st.journal).isSome
  entries : ∀ entry ∈ st.entries, entry.storagePath = homeOf root entry.sessionId
  callers : ∀ call ∈ st.calls, OwnName call.conversation.sessionId
  removals : ∀ removal ∈ st.removals, removal.sessionDir = homeOf root removal.sessionId ∧
    ∀ skipDisk, removal.phase = .checked skipDisk → skipDisk = false

/-- What keeps the disk in step with the store, under one base path. -/
def Tidy (root : Location) (st : State) : Event → Prop
  | .restart env config _ defaultOutcome =>
      (boot env config st).root = root ∧ defaultOutcome ≠ .throws true
  | .reload newConfig constructed => st.initialized ∧
      (constructed → locate st.cwd (basePathOf newConfig.dataBasePath) = root)
  | .invoke sessionId => st.initialized ∧ OwnName sessionId
  | .invokeChannel channel chatId sessionId =>
      st.initialized ∧ OwnName (conversationOf channel chatId sessionId).sessionId
  | .findEntry _ outcome => st.initialized ∧ outcome ≠ .throws true
  | .addMessage _ now m =>
      st.initialized ∧ (isValidMessage m → Utf8Message (stamp now m))
  | .getOrCreate sessionId outcome =>
      st.initialized ∧ OwnName sessionId ∧ outcome ≠ .throws true
  | .removeSession sessionId => st.initialized ∧
      (sessionId = [] ∨ sessionId ∈ st.reservedSessions ∨ OwnName sessionId)
  | .tryLock k => st.initialized ∧ ∀ removal ∈ st.removals[k]?,
      match removal.phase with
      | .erased removed => st.held removed = false
      | _ => True
  | .deleteDirectory k deletion => st.initialized ∧ deletion = .complete ∧
      ∀ removal ∈ st.removals[k]?, st.sessions.lookup removal.sessionId = none
  | _ => st.initialized

instance (root : Location) (st : State) : (e : Event) → Decidable (Tidy root st e)
  | .restart env config _ defaultOutcome => inferInstanceAs (Decidable
      ((boot env config st).root = root ∧ defaultOutcome ≠ .throws true))
  | .reload newConfig constructed => inferInstanceAs (Decidable (st.initialized ∧
      (constructed → locate st.cwd (basePathOf newConfig.dataBasePath) = root)))
  | .invoke sessionId => inferInstanceAs (Decidable (st.initialized ∧ OwnName sessionId))
  | .invokeChannel channel chatId sessionId => inferInstanceAs (Decidable (st.initialized ∧
      OwnName (conversationOf channel chatId sessionId).sessionId))
  | .findEntry _ outcome => inferInstanceAs (Decidable (st.initialized ∧ outcome ≠ .throws true))
  | .addMessage _ now m => inferInstanceAs (Decidable (st.initialized ∧
      (isValidMessage m → Utf8Message (stamp now m))))
  | .getOrCreate sessionId outcome => inferInstanceAs (Decidable (st.initialized ∧
      OwnName sessionId ∧ outcome ≠ .throws true))
  | .removeSession sessionId => inferInstanceAs (Decidable (st.initialized ∧
      (sessionId = [] ∨ sessionId ∈ st.reservedSessions ∨ OwnName sessionId)))
  | .tryLock k =>
      @instDecidableAnd _ _ _ (@Option.decidableForallMem _ _ (fun removal =>
        match removal with
        | ⟨_, _, .erased removed⟩ => inferInstanceAs (Decidable (st.held removed = false))
        | ⟨_, _, .unreserved⟩ | ⟨_, _, .checked _⟩ | ⟨_, _, .done⟩ =>
            inferInstanceAs (Decidable True)) st.removals[k]?)
  | .deleteDirectory k deletion => inferInstanceAs (Decidable (st.initialized ∧
      deletion = .complete ∧
        ∀ removal ∈ st.removals[k]?, st.sessions.lookup removal.sessionId = none))
  | .register _ | .enterGate _ | .testGate _ | .wake _ | .lockTurn _ | .endTurn _ _
  | .releaseGate _ | .finish _ | .eraseEntry _ => inferInstanceAs (Decidable st.initialized)

/-! ## Steps -/

section

variable {root : Location} {st st' : State} {i : Nat}

/-- The disk and the store stay as they are. -/
theorem Mirrored.of_same (h : Mirrored root st) (hdisk : st'.disk = st.disk)
    (hjournal : ∀ id, historyOf id st'.journal = historyOf id st.journal)
    (hlive : ∀ id e, st'.sessions.lookup id = some e → st.sessions.lookup id = some e)
    (hentries : ∀ entry' ∈ st'.entries, ∃ entry ∈ st.entries,
      entry'.sessionId = entry.sessionId ∧ entry'.storagePath = entry.storagePath)
    (hcallers : ∀ call' ∈ st'.calls, ∃ call ∈ st.calls,
      call'.conversation.sessionId = call.conversation.sessionId)
    (hremovals : st'.removals = st.removals) : Mirrored root st' where
  home id := by rw [hdisk, hjournal, h.home]
  keys dir := by
    rw [hdisk]
    exact h.keys dir
  named id := by
    rw [hjournal]
    exact h.named id
  live id e hlookup := by
    rw [hjournal]
    exact h.live id e (hlive id e hlookup)
  entries entry' hmem := by
    obtain ⟨entry, hentry, hid, hpath⟩ := hentries entry' hmem
    rw [hpath, hid]
    exact h.entries entry hentry
  callers call' hmem := by
    obtain ⟨call, hcall, hid⟩ := hcallers call' hmem
    rw [hid]
    exact h.callers call hcall
  removals := hremovals ▸ h.removals

theorem Mirrored.quiet (h : Mirrored root st) (hquiet : Quiet st st') : Mirrored root st' := by
  refine h.of_same hquiet.histories.1 (fun id => by rw [hquiet.histories.2])
    (fun id e hlookup => hquiet.registry.1 ▸ hlookup) (fun entry' hmem => ?_)
    (fun call' hcall' => ?_) hquiet.removals
  · obtain ⟨e, he⟩ := List.mem_iff_getElem?.mp hmem
    obtain ⟨entry, hentry, hsame⟩ := hquiet.entry he
    obtain ⟨hid, _, hpath, _⟩ := SessionEntry.unlocked_inj hsame
    exact ⟨entry, List.mem_of_getElem? hentry, hid, hpath⟩
  · obtain ⟨call, hcall, hsame, _⟩ := hquiet.mem hcall'
    exact ⟨call, hcall, congrArg _ hsame⟩

/-- A directory that is made for an own name holds the history of that name, if any. -/
theorem Mirrored.home_made (h : Mirrored root st) (id id' : Str) :
    (st.disk.createDirectories (homeOf root id)).lookup (homeOf root id') =
      if id = id' then some ((historyOf id' st.journal).getD [])
      else historyOf id' st.journal := by
  rw [Disk.lookup_createDirectories]
  by_cases hid : id = id'
  · subst hid
    rw [if_pos rfl, if_pos rfl, h.home]
  · rw [if_neg fun heq => hid (homeOf_inj.mp heq).symm, if_neg hid, h.home]

theorem Mirrored.keys_made (h : Mirrored root st) (id : Str) {dir : Location}
    (hdir : ((st.disk.createDirectories (homeOf root id)).lookup dir).isSome) :
    ∃ id, dir = homeOf root id := by
  rw [Disk.lookup_createDirectories] at hdir
  split at hdir
  · exact ⟨id, ‹_›⟩
  · exact h.keys dir hdir

theorem Mirrored.lookup (h : Mirrored root st) (hroot : st.root = root) {sessionId : Str}
    (hown : OwnName sessionId) {outcome : Lookup}
    (hclean : outcome ≠ .throws true ∨ (historyOf sessionId st.journal).isSome) :
    Mirrored root (lookupEntry sessionId st outcome) := by
  have hdir := hown.directory hroot
  refine lookupEntry_keeps outcome h (fun _ => ?_) fun hthrows => ?_
  · have hhistory : ∀ id, historyOf id (createEntry sessionId st).journal =
        if sessionId = id then some ((historyOf id st.journal).getD [])
        else historyOf id st.journal := fun id => historyOf_opened id st.journal sessionId
    have hsome : ∀ id, (historyOf id st.journal).isSome →
        (historyOf id (createEntry sessionId st).journal).isSome := by
      intro id hid
      rw [hhistory]
      split
      · rfl
      · exact hid
    refine ⟨fun id => ?_, fun dir hmade => ?_, fun id hid => ?_, fun id e hlookup => ?_,
      fun entry hentry => ?_, h.callers, h.removals⟩
    · rw [hhistory, createEntry]
      dsimp only
      rw [hdir]
      exact h.home_made sessionId id
    · rw [createEntry] at hmade
      dsimp only at hmade
      rw [hdir] at hmade
      exact h.keys_made sessionId hmade
    · rw [hhistory] at hid
      split at hid
      · rename_i heq
        exact heq ▸ hown
      · exact h.named id hid
    · rcases createEntry_lookup hlookup with ⟨rfl, _⟩ | ⟨_, hold⟩
      · rw [hhistory, if_pos rfl]
        rfl
      · exact hsome id (h.live id e hold)
    · rcases List.mem_append.mp hentry with hold | hnew
      · exact h.entries entry hold
      · rw [List.mem_singleton.mp hnew]
        exact hdir
  · -- the directory exists already
    have hexists : (historyOf sessionId st.journal).isSome := by
      rcases hclean with hne | hsome
      · exact absurd hthrows hne
      · exact hsome
    obtain ⟨rows, hrows⟩ := Option.isSome_iff_exists.mp hexists
    refine ⟨fun id => ?_, fun dir hmade => ?_, h.named, h.live, h.entries, h.callers, h.removals⟩
    · rw [makeDirectory]
      dsimp only
      rw [hdir, h.home_made]
      split
      · rename_i heq
        rw [← heq, hrows]
        rfl
      · rfl
    · rw [makeDirectory] at hmade
      dsimp only at hmade
      rw [hdir] at hmade
      exact h.keys_made sessionId hmade

theorem Mirrored.findEntry (h : Mirrored root st) (hroot : st.root = root) {outcome : Lookup}
    (hclean : outcome ≠ .throws true) (hstep : findEntry i outcome st = some st') :
    Mirrored root st' := by
  obtain ⟨conversation, hcall, houtcome⟩ := findEntry_spec hstep
  have hown := h.callers _ (List.mem_of_getElem? hcall)
  rcases houtcome with ⟨rfl, rfl⟩ | ⟨made, rfl, rfl⟩
  · have hfound : Mirrored root (findOrCreateEntry conversation.sessionId st).1 :=
      h.lookup hroot hown (Or.inl hclean)
    obtain ⟨phase, hbind, _⟩ := bindCall_spec i conversation.sessionId st
    rw [hbind]
    refine hfound.of_same rfl (fun _ => rfl) (fun _ _ => id) (fun entry' hmem => ?_)
      (fun call' hcall' => ?_) rfl
    · obtain ⟨entry, hentry, hid, hpath, _⟩ := mem_boundState hmem
      exact ⟨entry, hentry, hid, hpath⟩
    · obtain ⟨call, hmem, hsame⟩ := calls_setPhase hcall'
      exact ⟨call, hmem, congrArg _ hsame⟩
  · have hleft := h.lookup hroot hown (Or.inl hclean)
    refine hleft.of_same rfl (fun _ => rfl) (fun _ _ => id) (fun entry hmem => ⟨entry, hmem, rfl, rfl⟩)
      (fun call' hcall' => ?_) rfl
    obtain ⟨call, hmem, hsame⟩ := calls_setPhase hcall'
    exact ⟨call, hmem, congrArg _ hsame⟩

theorem saved_eq_accepted {now : Str} {m : Message}
    (h : isValidMessage m → Utf8Message (stamp now m)) : saved now m = accepted now m := by
  unfold saved accepted
  by_cases hvalid : isValidMessage m = true
  · rw [if_pos ⟨hvalid, h hvalid⟩, if_pos hvalid]
  · rw [if_neg fun hboth => hvalid hboth.1, if_neg hvalid]

/-- A message that is added is added to the file of its session. -/
theorem Mirrored.addMessage (h : Mirrored root st) (hassigned : Assigned st) {now : Str}
    {m : Message} (hutf8 : isValidMessage m → Utf8Message (stamp now m))
    (hstep : addMessage i now m st = some st') : Mirrored root st' := by
  obtain ⟨conversation, e, a, entry, hcall, hentry, rfl⟩ := addMessage_spec hstep
  have hpath : entry.storagePath = homeOf root conversation.sessionId := by
    rw [h.entries entry (List.mem_of_getElem? hentry),
      hassigned.entry_of_turn (List.mem_of_getElem? hcall) rfl hentry]
  have hhistory : ∀ id, historyOf id (recordMessage e conversation now m entry st).journal =
      if conversation.sessionId = id then (historyOf id st.journal).map (· ++ accepted now m)
      else historyOf id st.journal := by
    intro id
    rw [recordMessage_journal, historyOf_added]
  have hsome : ∀ id, (historyOf id (recordMessage e conversation now m entry st).journal).isSome =
      (historyOf id st.journal).isSome := by
    intro id
    rw [hhistory]
    split
    · exact Option.isSome_map ..
    · rfl
  refine ⟨fun id => ?_, fun dir hdir => ?_, fun id hid => ?_, fun id e' hlookup => ?_,
    fun entry' hentry' => ?_, h.callers, h.removals⟩
  · rw [hhistory, recordMessage_lookup, hpath, saved_eq_accepted hutf8, h.home]
    by_cases hid : conversation.sessionId = id
    · rw [if_pos hid, if_pos (congrArg _ hid.symm)]
    · rw [if_neg hid, if_neg fun heq => hid (homeOf_inj.mp heq).symm]
  · rw [recordMessage_lookup] at hdir
    split at hdir
    · exact ⟨conversation.sessionId, ‹_ = _›.trans hpath⟩
    · exact h.keys dir hdir
  · rw [hsome] at hid
    exact h.named id hid
  · rw [hsome]
    exact h.live id e' hlookup
  · obtain ⟨j, hj⟩ := List.mem_iff_getElem?.mp hentry'
    rw [recordMessage_entries] at hj
    obtain ⟨before, hbefore, rfl⟩ := Option.map_eq_some_iff.mp hj
    have hold := h.entries before (List.mem_of_getElem? hbefore)
    split <;> exact hold

theorem Mirrored.arrive (h : Mirrored root st) {conversation : Conversation}
    (hown : OwnName conversation.sessionId) : Mirrored root (arrive conversation st) where
  home id := (h.home id).trans (historyOf_called id st.journal conversation).symm
  keys := h.keys
  named id hid := h.named id (historyOf_called id st.journal conversation ▸ hid)
  live id e hlookup := (historyOf_called id st.journal conversation).symm ▸ h.live id e hlookup
  entries := h.entries
  callers call hmem := by
    rcases arrive_calls hmem with hold | ⟨hsame, _⟩
    · exact h.callers call hold
    · exact hsame ▸ hown
  removals := h.removals

theorem Mirrored.checkReserved (h : Mirrored root st) (hroot : st.root = root) {sessionId : Str}
    (hown : sessionId = [] ∨ sessionId ∈ st.reservedSessions ∨ OwnName sessionId) :
    Mirrored root (checkReserved sessionId st) := by
  unfold Session.checkReserved
  split
  · exact h
  · rename_i hunreserved
    have hname : OwnName sessionId := by
      rcases hown with hnil | hreserved | hname
      · exact absurd (Or.inl hnil) hunreserved
      · exact absurd (Or.inr hreserved) hunreserved
      · exact hname
    refine ⟨h.home, h.keys, h.named, h.live, h.entries, h.callers, fun removal hmem => ?_⟩
    rcases List.mem_append.mp hmem with hold | hnew
    · exact h.removals removal hold
    · rw [List.mem_singleton.mp hnew]
      exact ⟨hname.directory hroot, nofun⟩

theorem Mirrored.setRemovalPhase (h : Mirrored root st) {k : Nat} {phase : RemovalPhase}
    (hphase : ∀ skipDisk, phase = .checked skipDisk → skipDisk = false) :
    Mirrored root (st.setRemovalPhase k phase) := by
  refine ⟨h.home, h.keys, h.named, h.live, h.entries, h.callers, fun removal hmem => ?_⟩
  rcases removals_setRemovalPhase hmem with hold | ⟨before, hbefore, rfl⟩
  · exact h.removals removal hold
  · exact ⟨(h.removals before hbefore).1, hphase⟩

theorem Mirrored.eraseEntry (h : Mirrored root st) {k : Nat}
    (hstep : eraseEntry k st = some st') : Mirrored root st' := by
  obtain ⟨sessionId, dir, _, rfl⟩ := eraseEntry_spec hstep
  have herased : Mirrored root { st with sessions := st.sessions.erase sessionId } :=
    ⟨h.home, h.keys, h.named, fun id e hlookup => h.live id e (lookup_of_erase hlookup).2,
      h.entries, h.callers, h.removals⟩
  exact herased.setRemovalPhase nofun

theorem Mirrored.tryLock (h : Mirrored root st) {k : Nat}
    (htidy : Tidy root st (.tryLock k)) (hstep : tryLock k st = some st') : Mirrored root st' := by
  obtain ⟨sessionId, dir, removed, hk, rfl⟩ := tryLock_spec hstep
  refine h.setRemovalPhase fun skipDisk hskip => ?_
  cases hskip
  exact htidy.2 _ hk

/-- A directory is deleted with the session it belongs to. -/
theorem Mirrored.deleteDirectory (h : Mirrored root st) {k : Nat} {deletion : Deletion}
    (htidy : Tidy root st (.deleteDirectory k deletion))
    (hstep : deleteDirectory k deletion st = some st') : Mirrored root st' := by
  obtain ⟨sessionId, dir, skipDisk, hk, rfl⟩ := deleteDirectory_spec hstep
  obtain ⟨_, rfl, hclosed⟩ := htidy
  obtain ⟨hdir, hskip⟩ := h.removals _ (List.mem_of_getElem? hk)
  dsimp only at hdir
  have hkeeps : skipDisk = false := hskip skipDisk rfl
  subst hkeeps hdir
  refine Mirrored.setRemovalPhase ?_ nofun
  have hremoved : ∀ key rows, (st.disk.removeBelow (homeOf root sessionId)
      Deletion.complete.reaches).lookup key = some rows ↔
        st.disk.lookup key = some rows ∧ ¬ homeOf root sessionId <+: key := by
    intro key rows
    rw [Disk.lookup_removeBelow, Deletion.reaches, and_iff_left rfl]
  have hhome : ∀ id, (st.disk.removeBelow (homeOf root sessionId)
      Deletion.complete.reaches).lookup (homeOf root id) =
        if sessionId = id then none else historyOf id st.journal := by
    intro id
    refine Option.ext fun rows => ?_
    rw [hremoved, h.home, homeOf_prefix]
    split
    · simp [*]
    · simp [*]
  refine ⟨fun id => ?_, fun key hkey => ?_, fun id hid => ?_, fun id e hlookup => ?_, h.entries,
    h.callers, h.removals⟩
  · dsimp only
    rw [historyOf_removed, if_neg Bool.false_ne_true]
    exact hhome id
  · obtain ⟨rows, hrows⟩ := Option.isSome_iff_exists.mp hkey
    dsimp only at hrows
    rw [if_neg Bool.false_ne_true, hremoved] at hrows
    exact h.keys key (hrows.1 ▸ rfl)
  · dsimp only at hid
    rw [historyOf_removed] at hid
    split at hid
    · cases hid
    · exact h.named id hid
  · have hopen : st.sessions.lookup id = some e := hlookup
    have hid : sessionId ≠ id := by
      intro heq
      rw [← heq, hclosed _ hk] at hopen
      cases hopen
    dsimp only
    rw [historyOf_removed, if_neg hid]
    exact h.live id e hopen

/-- The directories that are listed are those of the sessions that exist. -/
theorem Mirrored.mem_namesIn (h : Mirrored root st) (name : Str) :
    name ∈ st.disk.namesIn (root ++ [lit "sessions"]) ↔ (historyOf name st.journal).isSome := by
  have hname : ∀ id : Str, (homeOf root id)[(root ++ [lit "sessions"]).length]? = some id := by
    intro id
    have hsplit : homeOf root id = (root ++ [lit "sessions"]) ++ [id] := by
      rw [homeOf, List.append_assoc]
      rfl
    rw [hsplit]
    exact List.getElem?_concat_length ..
  rw [Disk.mem_namesIn]
  constructor
  · rintro ⟨key, hkey, _, hlast⟩
    obtain ⟨id, rfl⟩ := h.keys key hkey
    rw [hname, Option.some.injEq] at hlast
    rw [← hlast, ← h.home]
    exact hkey
  · intro hexists
    refine ⟨homeOf root name, (h.home name).symm ▸ hexists, ⟨[name], ?_⟩, hname name⟩
    rw [homeOf, List.append_assoc]
    rfl

theorem history_lookup {id : Str} (sessionId : Str) (outcome : Lookup)
    (h : (historyOf id st.journal).isSome) :
    (historyOf id (lookupEntry sessionId st outcome).journal).isSome := by
  refine lookupEntry_keeps (motive := fun st' => (historyOf id st'.journal).isSome) outcome h
    (fun _ => ?_) fun _ => h
  have hopened := historyOf_opened id st.journal sessionId
  rw [createEntry]
  dsimp only
  rw [hopened]
  split
  · rfl
  · exact h

theorem Mirrored.boot (h : Mirrored root st) (env : Env) (config : AgentConfig) :
    Mirrored root (boot env config st) :=
  ⟨h.home, h.keys, h.named, nofun, nofun, nofun, nofun⟩

theorem Mirrored.restart (h : Mirrored root st) {env : Env} {config : AgentConfig}
    {names : List (Str × Lookup)} {defaultOutcome : Lookup}
    (hroot : (Session.boot env config st).root = root) (hclean : defaultOutcome ≠ .throws true)
    (hstep : restart env config names defaultOutcome st = some st') :
    Mirrored root st' ∧ st'.root = root := by
  obtain ⟨hlisted, hstep⟩ := Option.ite_none_right_eq_some.mp hstep
  cases hstep
  have hbooted := h.boot env config
  rw [hroot] at hlisted
  have hexist : ∀ name ∈ names,
      (historyOf name.1 (Session.boot env config st).journal).isSome := by
    intro name hname
    exact (hbooted.mem_namesIn name.1).mp (hlisted.subset (List.mem_map_of_mem hname))
  have hrestored := restore_keeps (motive := fun s => Mirrored root s ∧ s.root = root ∧
      ∀ name ∈ names, (historyOf name.1 s.journal).isSome) names
    (fun name hname s hs => by
      have hsome := hs.2.2 name hname
      refine ⟨hs.1.lookup hs.2.1 (hs.1.named _ hsome) (Or.inr hsome), ?_, fun other hother =>
        history_lookup name.1 name.2 (hs.2.2 other hother)⟩
      exact (samePlace_lookup name.1 s name.2).root.trans hs.2.1)
    _ ⟨hbooted, hroot, hexist⟩
  obtain ⟨hmirrored, hplace, _⟩ := hrestored
  have hdefault := hmirrored.lookup hplace ownName_default (Or.inl hclean)
  refine ⟨⟨hdefault.home, hdefault.keys, hdefault.named, hdefault.live, hdefault.entries,
    hdefault.callers, hdefault.removals⟩, ?_⟩
  exact (samePlace_lookup kDefaultSessionId _ defaultOutcome).root.trans hplace

theorem Mirrored.reload (h : Mirrored root st) (newConfig : AgentConfig) (constructed : Bool) :
    Mirrored root (reloadAgent newConfig constructed st) :=
  reloadAgent_keeps h (h.quiet (quiet_hear st false)) fun _ h =>
    ⟨h.home, h.keys, h.named, h.live, h.entries, h.callers, h.removals⟩

/-- Where the manager is, once it runs. -/
def PlacedAt (root : Location) (st : State) : Prop := st.initialized → st.root = root

theorem PlacedAt.step (h : PlacedAt root st) {e : Event} (htidy : Tidy root st e)
    (hrestarted : ∀ env config names defaultOutcome, e = .restart env config names defaultOutcome →
      st'.root = root) (hstep : step st e = some st') : PlacedAt root st' := by
  intro hready
  cases hreplaces : e.replaces with
  | false =>
      have hsame := step_samePlace hstep hreplaces
      rw [hsame.root]
      exact h (hsame.initialized ▸ hready)
  | true =>
      cases e with
      | restart env config names defaultOutcome => exact hrestarted _ _ _ _ rfl
      | reload newConfig constructed =>
          cases hstep
          by_cases hdone : st.initialized ∧ constructed
          · have hmoved := htidy.2 hdone.2
            rw [reloadAgent, if_pos hdone]
            dsimp only
            split <;> exact hmoved
          · rw [reloadAgent, if_neg hdone]
            exact h htidy.1
      | _ => cases hreplaces

theorem Mirrored.step (h : Mirrored root st) (hassigned : Assigned st) (hplaced : PlacedAt root st)
    {e : Event} (htidy : Tidy root st e) (hstep : step st e = some st') :
    Mirrored root st' ∧ PlacedAt root st' := by
  have hkept : (∀ env config names defaultOutcome, e ≠ .restart env config names defaultOutcome) →
      Mirrored root st' → Mirrored root st' ∧ PlacedAt root st' :=
    fun hother hmirrored => ⟨hmirrored, hplaced.step htidy
      (fun _ _ _ _ heq => absurd heq (hother _ _ _ _)) hstep⟩
  cases e with
  | restart env config names defaultOutcome =>
      obtain ⟨hmirrored, hroot⟩ := h.restart htidy.1 htidy.2 hstep
      exact ⟨hmirrored, fun _ => hroot⟩
  | reload newConfig constructed =>
      refine hkept nofun ?_
      cases hstep
      exact h.reload newConfig constructed
  | invoke sessionId =>
      refine hkept nofun ?_
      cases hstep
      exact h.arrive htidy.2
  | invokeChannel channel chatId sessionId =>
      refine hkept nofun ?_
      cases hstep
      exact h.arrive htidy.2
  | findEntry i outcome => exact hkept nofun (h.findEntry (hplaced htidy.1) htidy.2 hstep)
  | addMessage i now m => exact hkept nofun (h.addMessage hassigned htidy.2 hstep)
  | getOrCreate sessionId outcome =>
      refine hkept nofun ?_
      cases hstep
      exact h.lookup (hplaced htidy.1) htidy.2.1 (Or.inl htidy.2.2)
  | removeSession sessionId =>
      refine hkept nofun ?_
      cases hstep
      exact h.checkReserved (hplaced htidy.1) htidy.2
  | eraseEntry k => exact hkept nofun (h.eraseEntry hstep)
  | tryLock k => exact hkept nofun (h.tryLock htidy hstep)
  | deleteDirectory k deletion => exact hkept nofun (h.deleteDirectory htidy hstep)
  | _ => exact hkept nofun (h.quiet (step_quiet hstep rfl))

theorem mirrored_run (h : Run step (Tidy root) {} st) : Mirrored root st := by
  have hempty : Mirrored root {} :=
    ⟨fun _ => rfl, nofun, nofun, nofun, nofun, nofun, nofun⟩
  have hall : Assigned st ∧ Mirrored root st ∧ PlacedAt root st :=
    h.invariant (motive := fun st => Assigned st ∧ Mirrored root st ∧ PlacedAt root st)
      ⟨⟨nofun, nofun⟩, hempty, nofun⟩
      fun _ _ _ hinv htidy hstep =>
        ⟨hinv.1.step hstep, hinv.2.1.step hinv.1 hinv.2.2 htidy hstep⟩
  exact hall.2.1

end

/-! ## The restored sessions -/

/-- A restart finds the sessions that exist, and the default one, under their ids and with
their own histories, which are cut where a crash has left tool calls unanswered. -/
structure Restored (st st' : State) : Prop where
  sessions : ∀ id, (st'.sessions.lookup id).isSome ↔
    (historyOf id st.journal).isSome ∨ id = kDefaultSessionId
  histories : ∀ id e, st'.sessions.lookup id = some e → ∃ entry, st'.entries[e]? = some entry ∧
    entry.sessionId = id ∧
    entry.memoryBuffer = trimOrphanTrailingToolCalls ((historyOf id st.journal).getD [])

/-- The restore loop when the sessions in `done` have been restored. -/
structure Restoring (root : Location) (journal : List Record) (done : List Str) (st : State) :
    Prop where
  place : st.root = root
  disk : ∀ id, id ∉ done → st.disk.lookup (homeOf root id) = historyOf id journal
  sessions : ∀ id, (st.sessions.lookup id).isSome ↔ id ∈ done
  histories : ∀ id e, st.sessions.lookup id = some e → ∃ entry, st.entries[e]? = some entry ∧
    entry.sessionId = id ∧
    entry.memoryBuffer = trimOrphanTrailingToolCalls ((historyOf id journal).getD [])

section

variable {root : Location} {journal : List Record} {done : List Str} {st : State}

theorem Restoring.lookup (h : Restoring root journal done st) {name : Str} (hown : OwnName name) :
    Restoring root journal (name :: done) (lookupEntry name st .found) := by
  cases hknown : st.sessions.lookup name with
  | some e =>
      have hdone : name ∈ done := (h.sessions name).mp (hknown ▸ rfl)
      rw [lookupEntry, findOrCreateEntry_found hknown]
      refine ⟨h.place, fun id hid => h.disk id fun hmem => hid (List.mem_cons_of_mem _ hmem),
        fun id => ?_, h.histories⟩
      rw [h.sessions, List.mem_cons]
      exact (or_iff_right_of_imp fun heq => heq ▸ hdone).symm
  | none =>
      have hdir := hown.directory h.place
      have hnew : name ∉ done := by
        intro hmem
        have hsome := (h.sessions name).mpr hmem
        rw [hknown] at hsome
        cases hsome
      rw [lookupEntry, findOrCreateEntry_new hknown]
      refine ⟨h.place, fun id hid => ?_, fun id => ?_, fun id e hlookup => ?_⟩
      · obtain ⟨hne, hold⟩ := not_or.mp (mt List.mem_cons.mpr hid)
        rw [createEntry]
        dsimp only
        rw [hdir, Disk.lookup_createDirectories, if_neg fun heq => hne (homeOf_inj.mp heq)]
        exact h.disk id hold
      · by_cases hid : id = name
        · subst hid
          rw [createEntry, AList.lookup_insert]
          exact iff_of_true rfl (List.mem_cons_self ..)
        · rw [createEntry, AList.lookup_insert_ne hid, h.sessions, List.mem_cons,
            or_iff_right hid]
      · rcases createEntry_lookup hlookup with ⟨rfl, rfl⟩ | ⟨_, hold⟩
        · refine ⟨newEntry id st, createEntry_new id st, rfl, ?_⟩
          rw [newEntry_buffer, hdir, h.disk id hnew]
        · obtain ⟨entry, hentry, hid, hbuffer⟩ := h.histories id e hold
          exact ⟨entry, createEntry_old name st hentry, hid, hbuffer⟩

/-- The loop restores every directory that is listed. -/
theorem Restoring.loop (names : List (Str × Lookup))
    (hnames : ∀ name ∈ names, OwnName name.1 ∧ name.2 = .found)
    (h : Restoring root journal done st) :
    Restoring root journal ((names.map (·.1)).reverse ++ done)
      (names.foldl (fun st name => restoreEntry st name.1 name.2) st) := by
  induction names generalizing st done with
  | nil => exact h
  | cons name names ih =>
      obtain ⟨⟨hown, hfound⟩, hrest⟩ := List.forall_mem_cons.mp hnames
      have hstep : restoreEntry st name.1 name.2 = lookupEntry name.1 st .found := by
        rw [restoreEntry, if_pos ⟨hown.visible, hown.ne_nil⟩, hfound]
      have hloop := ih hrest (h.lookup hown)
      rw [List.map_cons, List.reverse_cons, List.append_assoc, List.singleton_append,
        List.foldl_cons, hstep]
      exact hloop

/-- A restart under the base path of a tidy run finds the sessions that have not been removed. -/
theorem restored_after_tidy (root : Location) (st st' : State) (env : Env) (config : AgentConfig)
    (names : List (Str × Lookup)) (h : Run step (Tidy root) {} st)
    (hroot : (boot env config st).root = root) (hnames : ∀ name ∈ names, name.2 = .found)
    (hstep : restart env config names .found st = some st') : Restored st st' := by
  have hmirrored := mirrored_run h
  have hbooted : Restoring root st.journal [] (boot env config st) :=
    ⟨hroot, fun id _ => hmirrored.home id, fun _ => iff_of_false nofun nofun, nofun⟩
  obtain ⟨hlisted, hstep⟩ := Option.ite_none_right_eq_some.mp hstep
  cases hstep
  rw [hroot] at hlisted
  have hexist : ∀ id, id ∈ names.map (·.1) ↔ (historyOf id st.journal).isSome :=
    fun id => hlisted.mem_iff.trans (hmirrored.mem_namesIn id)
  have hown : ∀ name ∈ names, OwnName name.1 ∧ name.2 = .found := fun name hname =>
    ⟨hmirrored.named _ ((hexist name.1).mp (List.mem_map_of_mem hname)), hnames name hname⟩
  have hrestored := (hbooted.loop names hown).lookup ownName_default
  refine ⟨fun id => ?_, hrestored.histories⟩
  refine (hrestored.sessions id).trans ?_
  rw [List.append_nil, List.mem_cons, List.mem_reverse, hexist]
  exact or_comm

end

/-- Two sessions, one of them removed, and a restart. -/
theorem restored_after_tidy_removal : ∃ st st', Run step (Tidy [lit "srv", lit "data"]) {} st ∧
    restart ⟨lit "/srv", none⟩ {} [(lit "s1", .found), (lit "__DEFAULT__", .found)] .found st =
      some st' ∧
    ((historyOf (lit "s1") st.journal).map (·.map (·.content)) = some [lit "hello"] ∧
      historyOf (lit "s2") st.journal = none) ∧ Restored st st' := by
  obtain ⟨st, hrun, ⟨hroot, hrestarts⟩, hhistories⟩ := exists_run_of_any step
    (Tidy [lit "srv", lit "data"]) {}
    (p := fun st => ((boot ⟨lit "/srv", none⟩ {} st).root = [lit "srv", lit "data"] ∧
        (restart ⟨lit "/srv", none⟩ {} [(lit "s1", .found), (lit "__DEFAULT__", .found)] .found
          st).isSome) ∧
      (historyOf (lit "s1") st.journal).map (·.map (·.content)) = some [lit "hello"] ∧
        historyOf (lit "s2") st.journal = none)
    [.restart ⟨lit "/srv", none⟩ {} [] .found,
      .invoke (lit "s1"), .enterGate 0, .testGate 0, .findEntry 0 .found, .lockTurn 0,
      .addMessage 0 (lit "1") { role := lit "user", content := lit "hello" },
      .invoke (lit "s2"), .enterGate 1, .testGate 1, .findEntry 1 .found, .lockTurn 1,
      .endTurn 1 (.returns []), .releaseGate 1, .finish 1,
      .removeSession (lit "s2"), .eraseEntry 0, .tryLock 0, .deleteDirectory 0 .complete]
    (by decide +kernel)
  obtain ⟨st', hst'⟩ := Option.isSome_iff_exists.mp hrestarts
  exact ⟨st, st', hrun, hst', hhistories,
    restored_after_tidy _ st st' _ _ _ hrun hroot (by decide) hst'⟩

/-- Calls, removals and restarts under one configuration. -/
def OneConfig (env : Env) (config : AgentConfig) (st : State) : Event → Prop
  | .restart env' config' _ _ => env' = env ∧ config' = config
  | .reload _ _ => False
  | _ => st.initialized

instance (env : Env) (config : AgentConfig) (st : State) :
    (e : Event) → Decidable (OneConfig env config st e)
  | .restart env' config' _ _ => inferInstanceAs (Decidable (env' = env ∧ config' = config))
  | .reload _ _ => inferInstanceAs (Decidable False)
  | .register _ | .invoke _ | .invokeChannel _ _ _ | .enterGate _ | .testGate _ | .wake _
  | .findEntry _ _ | .lockTurn _ | .addMessage _ _ _ | .endTurn _ _ | .releaseGate _ | .finish _
  | .getOrCreate _ _ | .removeSession _ | .eraseEntry _ | .tryLock _ | .deleteDirectory _ _ =>
      inferInstanceAs (Decidable st.initialized)

/-- The directory of `a:b` is `a_b`, and under this id the session is restored. -/
theorem restored_under_other_id : ¬ ∀ env config names st st',
    Run step (OneConfig env config) {} st → (∀ name ∈ names, name.2 = .found) →
    restart env config names .found st = some st' → Restored st st' := by
  intro h
  obtain ⟨st, hrun, hexists, hrestored⟩ := exists_run_of_any step
    (OneConfig ⟨lit "/srv", none⟩ {}) {}
    (p := fun st => (historyOf (lit "a:b") st.journal).isSome ∧
      (restart ⟨lit "/srv", none⟩ {} [(lit "a_b", .found), (lit "__DEFAULT__", .found)] .found
        st).any fun st' => (st'.sessions.lookup (lit "a:b")).isNone)
    [.restart ⟨lit "/srv", none⟩ {} [] .found,
      .invoke (lit "a:b"), .enterGate 0, .testGate 0, .findEntry 0 .found]
    (by decide +kernel)
  obtain ⟨st', hst', hnone⟩ := (Option.any_eq_true _ _).mp hrestored
  have hsome := ((h _ _ _ st st' hrun (by decide) hst').sessions (lit "a:b")).mpr (Or.inl hexists)
  rw [Option.isNone_iff_eq_none.mp hnone] at hsome
  cases hsome

end JiuwenCore.Session
