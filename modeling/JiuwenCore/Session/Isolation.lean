import JiuwenCore.Session.Registry

/-!
# Whose messages a session holds

A history lies under the sanitised name of its id, so a directory and the entries loaded
from it hold messages of all ids with that name, and of no others. What this means for
the conversations depends on whether the ids that are in use can be told apart by their
names and keys.
-/

namespace JiuwenCore.Session

open ContextEngine

/-! ## The journal -/

/-- The messages added under the ids that meet `p`, in order. -/
def addedUnder (p : Str → Bool) (journal : List Record) : List Message :=
  journal.filterMap fun
    | .added conversation m => if p conversation.sessionId then some m else none
    | _ => none

/-- The ids that are stored in a directory. -/
def storedIn (dir : Location) (id : Str) : Bool := dir.getLast? = some (sanitizePathName id)

theorem addedUnder_append (p : Str → Bool) (journal journal' : List Record) :
    addedUnder p (journal ++ journal') = addedUnder p journal ++ addedUnder p journal' :=
  List.filterMap_append

theorem addedUnder_grows (p : Str → Bool) {journal journal' : List Record}
    (h : journal <+: journal') : (addedUnder p journal).Sublist (addedUnder p journal') :=
  h.sublist.filterMap _

theorem addedUnder_added (p : Str → Bool) {conversation : Conversation}
    (h : p conversation.sessionId = true) (messages : List Message) :
    addedUnder p (messages.map (.added conversation)) = messages := by
  induction messages with
  | nil => rfl
  | cons m messages ih =>
      rw [List.map_cons, addedUnder, List.filterMap_cons]
      dsimp only
      rw [if_pos h]
      exact congrArg (m :: ·) ih

/-! ## Filing -/

/-- Entries and directories hold messages of the ids that are stored there only. -/
structure Filed (st : State) : Prop where
  paths : ∀ entry ∈ st.entries,
    entry.storagePath.getLast? = some (sanitizePathName entry.sessionId)
  rows : ∀ dir rows, st.disk.lookup dir = some rows →
    rows.Sublist (addedUnder (storedIn dir) st.journal)
  buffers : ∀ entry ∈ st.entries,
    entry.memoryBuffer.Sublist (addedUnder (storedIn entry.storagePath) st.journal)

section

variable {st st' : State} {i : Nat}

theorem sessionDirectory_name (st : State) (sessionId : Str) :
    (st.sessionDirectory sessionId).getLast? = some (sanitizePathName sessionId) := by
  rw [sessionDirectory_eq, List.getLast?_append]
  rfl

/-- Entries with the contents of before, and no new rows. -/
theorem Filed.of_same (h : Filed st)
    (hentries : ∀ entry' ∈ st'.entries, ∃ entry ∈ st.entries,
      entry'.sessionId = entry.sessionId ∧ entry'.storagePath = entry.storagePath ∧
        entry'.memoryBuffer = entry.memoryBuffer)
    (hdisk : ∀ dir rows, st'.disk.lookup dir = some rows → st.disk.lookup dir = some rows)
    (hjournal : st.journal <+: st'.journal) : Filed st' := by
  refine ⟨fun entry' hmem => ?_, fun dir rows hrows => ?_, fun entry' hmem => ?_⟩
  · obtain ⟨entry, hentry, hid, hpath, _⟩ := hentries entry' hmem
    rw [hid, hpath]
    exact h.paths entry hentry
  · exact (h.rows dir rows (hdisk dir rows hrows)).trans (addedUnder_grows _ hjournal)
  · obtain ⟨entry, hentry, _, hpath, hbuffer⟩ := hentries entry' hmem
    rw [hpath, hbuffer]
    exact (h.buffers entry hentry).trans (addedUnder_grows _ hjournal)

theorem Filed.quiet (h : Filed st) (hquiet : Quiet st st') : Filed st' := by
  refine h.of_same (fun entry' hmem => ?_) (fun dir rows hrows => ?_) ?_
  · obtain ⟨e, he⟩ := List.mem_iff_getElem?.mp hmem
    obtain ⟨entry, hentry, hsame⟩ := hquiet.entry he
    obtain ⟨hid, _, hpath, hbuffer⟩ := SessionEntry.unlocked_inj hsame
    exact ⟨entry, List.mem_of_getElem? hentry, hid, hpath, hbuffer⟩
  · rwa [hquiet.histories.1] at hrows
  · rw [hquiet.histories.2]

/-- The rows of a directory that has just been made are those it had. -/
theorem Filed.rows_made (h : Filed st) {dir key : Location} {rows : List Message}
    (hrows : (st.disk.createDirectories dir).lookup key = some rows) :
    rows.Sublist (addedUnder (storedIn key) st.journal) := by
  rw [Disk.lookup_createDirectories] at hrows
  split at hrows
  · rename_i hkey
    cases hrows
    cases hold : st.disk.lookup dir with
    | none => exact List.nil_sublist _
    | some rows => exact hkey ▸ h.rows dir rows hold
  · exact h.rows key rows hrows

theorem Filed.lookup (h : Filed st) (sessionId : Str) (outcome : Lookup) :
    Filed (lookupEntry sessionId st outcome) := by
  refine lookupEntry_keeps outcome h (fun _ => ?_) fun _ => ?_
  · have hgrows : st.journal <+: st.journal ++ [.opened sessionId] := List.prefix_append ..
    have hmem : ∀ entry ∈ st.entries ++ [newEntry sessionId st],
        entry ∈ st.entries ∨ entry = newEntry sessionId st := by simp
    refine ⟨fun entry hentry => ?_, fun key rows hrows => ?_, fun entry hentry => ?_⟩
    · rcases hmem entry hentry with hold | rfl
      · exact h.paths entry hold
      · exact sessionDirectory_name st sessionId
    · exact (h.rows_made hrows).trans (addedUnder_grows _ hgrows)
    · rcases hmem entry hentry with hold | rfl
      · exact (h.buffers entry hold).trans (addedUnder_grows _ hgrows)
      · refine List.Sublist.trans ?_ (addedUnder_grows _ hgrows)
        rw [newEntry_buffer]
        refine (prefix_trimOrphanTrailingToolCalls _).sublist.trans ?_
        cases hrows : st.disk.lookup (st.sessionDirectory sessionId) with
        | none => exact List.nil_sublist _
        | some rows => exact h.rows _ rows hrows
  · exact ⟨h.paths, fun key rows hrows => h.rows_made hrows, h.buffers⟩

theorem Filed.findEntry (h : Filed st) {outcome : Lookup}
    (hstep : findEntry i outcome st = some st') : Filed st' := by
  obtain ⟨conversation, _, ⟨rfl, rfl⟩ | ⟨made, rfl, rfl⟩⟩ := findEntry_spec hstep
  · have hfound : Filed (findOrCreateEntry conversation.sessionId st).1 :=
      h.lookup conversation.sessionId .found
    obtain ⟨phase, hbind, _⟩ := bindCall_spec i conversation.sessionId st
    rw [hbind]
    exact hfound.of_same (fun _ => mem_boundState) (fun _ _ => id) (List.prefix_refl _)
  · have hleft := h.lookup conversation.sessionId (.throws made)
    exact ⟨hleft.paths, hleft.rows, hleft.buffers⟩

/-- A message goes to the directory of its own session. -/
theorem Filed.addMessage (h : Filed st) (hassigned : Assigned st) {now : Str} {m : Message}
    (hstep : addMessage i now m st = some st') : Filed st' := by
  obtain ⟨conversation, e, a, entry, hcall, hentry, rfl⟩ := addMessage_spec hstep
  have hown := hassigned.entry_of_turn (List.mem_of_getElem? hcall) rfl hentry
  have hmem := List.mem_of_getElem? hentry
  have hstored : storedIn entry.storagePath conversation.sessionId = true := by
    rw [storedIn, h.paths entry hmem, hown]
    exact decide_eq_true rfl
  have hjournal : ∀ p : Str → Bool,
      addedUnder p (recordMessage e conversation now m entry st).journal =
        addedUnder p st.journal ++
          addedUnder p ((accepted now m).map (.added conversation)) := by
    intro p
    rw [recordMessage_journal, addedUnder_append]
  have hgrows : ∀ p : Str → Bool, (addedUnder p st.journal).Sublist
      (addedUnder p (recordMessage e conversation now m entry st).journal) := by
    intro p
    rw [hjournal]
    exact List.sublist_append_left ..
  have hentries : ∀ entry' ∈ (recordMessage e conversation now m entry st).entries,
      entry' ∈ st.entries ∨
        entry' = { entry with memoryBuffer := entry.memoryBuffer ++ accepted now m } := by
    intro entry' hentry'
    obtain ⟨j, hj⟩ := List.mem_iff_getElem?.mp hentry'
    rw [recordMessage_entries] at hj
    obtain ⟨before, hbefore, rfl⟩ := Option.map_eq_some_iff.mp hj
    split
    · rename_i hej
      rw [← hej, hentry, Option.some.injEq] at hbefore
      exact Or.inr (hbefore ▸ rfl)
    · exact Or.inl (List.mem_of_getElem? hbefore)
  refine ⟨fun entry' hentry' => ?_, fun dir rows hrows => ?_, fun entry' hentry' => ?_⟩
  · rcases hentries entry' hentry' with hold | rfl
    · exact h.paths entry' hold
    · exact h.paths entry hmem
  · rw [recordMessage_lookup] at hrows
    split at hrows
    · rename_i hdir
      subst hdir
      obtain ⟨before, hbefore, rfl⟩ := Option.map_eq_some_iff.mp hrows
      rw [hjournal, addedUnder_added _ hstored]
      exact (h.rows _ before hbefore).append (saved_sublist now m)
    · exact (h.rows dir rows hrows).trans (hgrows _)
  · rcases hentries entry' hentry' with hold | rfl
    · exact (h.buffers entry' hold).trans (hgrows _)
    · dsimp only
      rw [hjournal, addedUnder_added _ hstored]
      exact (h.buffers entry hmem).append (List.Sublist.refl _)

theorem Filed.step (h : Filed st) (hassigned : Assigned st) {e : Event}
    (hstep : step st e = some st') : Filed st' := by
  have hsame : ∀ entry ∈ st.entries, ∃ entry' ∈ st.entries,
      entry.sessionId = entry'.sessionId ∧ entry.storagePath = entry'.storagePath ∧
        entry.memoryBuffer = entry'.memoryBuffer := fun entry hmem => ⟨entry, hmem, rfl, rfl, rfl⟩
  cases e with
  | restart env config names defaultOutcome =>
      exact restart_keeps (motive := Filed) (fun sessionId _ outcome h => h.lookup sessionId outcome)
        (fun _ h => ⟨h.paths, h.rows, h.buffers⟩) hstep ⟨nofun, h.rows, nofun⟩
  | reload newConfig constructed =>
      cases hstep
      exact reloadAgent_keeps h (h.quiet (quiet_hear st false))
        fun _ h => ⟨h.paths, h.rows, h.buffers⟩
  | invoke sessionId =>
      cases hstep
      exact h.of_same hsame (fun _ _ => id) (List.prefix_append ..)
  | invokeChannel channel chatId sessionId =>
      cases hstep
      exact h.of_same hsame (fun _ _ => id) (List.prefix_append ..)
  | findEntry i outcome => exact h.findEntry hstep
  | addMessage i now m => exact h.addMessage hassigned hstep
  | getOrCreate sessionId outcome =>
      cases hstep
      exact h.lookup sessionId outcome
  | removeSession sessionId =>
      cases hstep
      unfold checkReserved
      split
      · exact h
      · exact ⟨h.paths, h.rows, h.buffers⟩
  | eraseEntry k =>
      obtain ⟨_, _, _, rfl⟩ := eraseEntry_spec hstep
      exact ⟨h.paths, h.rows, h.buffers⟩
  | tryLock k =>
      obtain ⟨_, _, _, _, rfl⟩ := tryLock_spec hstep
      exact ⟨h.paths, h.rows, h.buffers⟩
  | deleteDirectory k deletion =>
      obtain ⟨_, dir, skipDisk, _, rfl⟩ := deleteDirectory_spec hstep
      refine h.of_same hsame (fun key rows hrows => ?_) (List.prefix_append ..)
      cases skipDisk with
      | true => exact hrows
      | false => exact ((Disk.lookup_removeBelow dir _ st.disk key rows).mp hrows).1
  | _ => exact h.quiet (step_quiet hstep rfl)

end

theorem filed_run {ok : State → Event → Prop} {st : State} (h : Run step ok {} st) : Filed st := by
  have hboth : Assigned st ∧ Filed st :=
    h.invariant (motive := fun st => Assigned st ∧ Filed st)
      ⟨⟨nofun, nofun⟩, ⟨nofun, nofun, nofun⟩⟩
      fun _ _ _ hkept _ hstep => ⟨hkept.1.step hstep, hkept.2.step hkept.1 hstep⟩
  exact hboth.2

/-! ## Conversations -/

def calledIn (journal : List Record) : List Conversation :=
  journal.filterMap fun
    | .called conversation => some conversation
    | _ => none

/-- Neither the names of the sessions nor the keys of the chats confuse the two. -/
def Compatible (a b : Conversation) : Prop :=
  (NamesClash a.sessionId b.sessionId → a.sessionId = b.sessionId) ∧
    match a, b with
    | .chat channel chatId, .chat channel' chatId' =>
        KeysClash channel chatId channel' chatId' → channel = channel' ∧ chatId = chatId'
    | _, _ => True

instance (a b : Str) : Decidable (NamesClash a b) :=
  decidable_of_iff _ (sanitizePathName_eq_iff a b)

theorem keysClash_iff (channel chatId channel' chatId' : Str) :
    KeysClash channel chatId channel' chatId' ↔
      ¬ (channel = channel' ∧ chatId = chatId') ∧
        makeSessionKey channel chatId = makeSessionKey channel' chatId' := by
  rw [makeSessionKey_eq_iff]
  constructor
  · refine fun hclash => ⟨?_, Or.inr hclash⟩
    intro hsame
    exact keysClash_irrefl _ _ (hsame.1 ▸ hsame.2 ▸ hclash)
  · rintro ⟨hne, hsame | hclash⟩
    · exact absurd hsame hne
    · exact hclash

instance (channel chatId channel' chatId' : Str) :
    Decidable (KeysClash channel chatId channel' chatId') :=
  decidable_of_iff' _ (keysClash_iff channel chatId channel' chatId')

instance (a b : Conversation) : Decidable (Compatible a b) := by
  unfold Compatible
  cases a <;> cases b <;> infer_instance

def Event.conversation : Event → Option Conversation
  | invoke sessionId => some (.session sessionId)
  | invokeChannel channel chatId sessionId => some (conversationOf channel chatId sessionId)
  | _ => none

/-- A conversation that comes is told apart from those that were there before. -/
def Apart (st : State) (e : Event) : Prop :=
  ∀ conversation ∈ e.conversation, ∀ earlier ∈ calledIn st.journal, Compatible conversation earlier

instance (st : State) (e : Event) : Decidable (Apart st e) :=
  inferInstanceAs (Decidable (∀ conversation ∈ e.conversation, _))

/-- The sessions of the conversations that have been called: different chats have different
ids, different ids different directories, and what a session has loaded was added to it. -/
structure Isolated (st : State) : Prop where
  keys : ∀ channel chatId channel' chatId',
    .chat channel chatId ∈ calledIn st.journal → .chat channel' chatId' ∈ calledIn st.journal →
    makeSessionKey channel chatId = makeSessionKey channel' chatId' →
    channel = channel' ∧ chatId = chatId'
  directories : ∀ a ∈ calledIn st.journal, ∀ b ∈ calledIn st.journal,
    a.sessionId ≠ b.sessionId → st.sessionDirectory a.sessionId ≠ st.sessionDirectory b.sessionId
  histories : ∀ entry ∈ st.entries, ∀ conversation ∈ calledIn st.journal,
    entry.sessionId = conversation.sessionId →
    entry.memoryBuffer.Sublist (addedUnder (· = conversation.sessionId) st.journal)

theorem compatible_refl (a : Conversation) : Compatible a a := by
  refine ⟨fun _ => rfl, ?_⟩
  cases a with
  | session _ => trivial
  | chat _ _ => exact fun _ => ⟨rfl, rfl⟩

theorem NamesClash.symm {a b : Str} (h : NamesClash a b) : NamesClash b a := by
  rw [← sanitizePathName_eq_iff] at h ⊢
  exact h.symm

theorem KeysClash.symm {channel chatId channel' chatId' : Str}
    (h : KeysClash channel chatId channel' chatId') :
    KeysClash channel' chatId' channel chatId := by
  rcases h with h | h | h | h
  · exact Or.inr (Or.inl h)
  · exact Or.inl h
  · exact Or.inr (Or.inr (Or.inr h))
  · exact Or.inr (Or.inr (Or.inl h))

theorem Compatible.symm {a b : Conversation} (h : Compatible a b) : Compatible b a := by
  refine ⟨fun hclash => (h.1 hclash.symm).symm, ?_⟩
  have hchats := h.2
  cases a <;> cases b <;> try trivial
  exact fun hclash => ⟨(hchats hclash.symm).1.symm, (hchats hclash.symm).2.symm⟩

/-- Whoever has a call or has added a message has been called, and all who have been called
are told apart. -/
structure Known (st : State) : Prop where
  calls : ∀ call ∈ st.calls, call.conversation ∈ calledIn st.journal
  added : ∀ conversation m, .added conversation m ∈ st.journal →
    conversation ∈ calledIn st.journal
  compatible : ∀ a ∈ calledIn st.journal, ∀ b ∈ calledIn st.journal, Compatible a b

theorem Known.isolated {st : State} (h : Known st) (hfiled : Filed st) : Isolated st := by
  refine ⟨fun channel chatId channel' chatId' hmem hmem' hkey => ?_,
    fun a ha b hb hne hdir => ?_, fun entry hentry conversation hmem hid => ?_⟩
  · rcases (makeSessionKey_eq_iff _ _ _ _).mp hkey with hsame | hclash
    · exact hsame
    · exact (h.compatible _ hmem _ hmem').2 hclash
  · have hname := sessionLocation_inj.mp hdir
    exact hne ((h.compatible a ha b hb).1 ((sanitizePathName_eq_iff _ _).mp hname))
  · have hbuffer := hfiled.buffers entry hentry
    have hown : addedUnder (storedIn entry.storagePath) st.journal =
        addedUnder (· = conversation.sessionId) st.journal := by
      refine List.filterMap_congr fun record hrecord => ?_
      cases record with
      | added other m =>
          have hother := h.added other m hrecord
          have hiff : storedIn entry.storagePath other.sessionId = true ↔
              other.sessionId = conversation.sessionId := by
            rw [storedIn, hfiled.paths entry hentry, hid, decide_eq_true_iff, Option.some.injEq,
              sanitizePathName_eq_iff]
            constructor
            · exact fun hclash => ((h.compatible _ hmem _ hother).1 hclash).symm
            · exact fun heq => heq ▸ (sanitizePathName_eq_iff _ _).mp rfl
          simp only [hiff, decide_eq_true_eq]
      | _ => rfl
    exact hown ▸ hbuffer

section

variable {st st' : State} {i : Nat}

/-- Nobody new is called, and those who add have been. -/
theorem Known.of_same (h : Known st) (extra : List Record)
    (hcalls : ∀ call' ∈ st'.calls, ∃ call ∈ st.calls, call'.conversation = call.conversation)
    (hjournal : st'.journal = st.journal ++ extra) (hnone : calledIn extra = [])
    (hadded : ∀ conversation m, .added conversation m ∈ extra →
      conversation ∈ calledIn st.journal) : Known st' := by
  have hcalled : calledIn st'.journal = calledIn st.journal := by
    have happend : calledIn (st.journal ++ extra) = calledIn st.journal ++ calledIn extra :=
      List.filterMap_append
    rw [hjournal, happend, hnone, List.append_nil]
  refine ⟨fun call' hcall' => ?_, fun conversation m hmem => ?_, ?_⟩
  · obtain ⟨call, hcall, hsame⟩ := hcalls call' hcall'
    rw [hcalled, hsame]
    exact h.calls call hcall
  · rw [hcalled]
    rw [hjournal] at hmem
    rcases List.mem_append.mp hmem with hold | hnew
    · exact h.added conversation m hold
    · exact hadded conversation m hnew
  · rw [hcalled]
    exact h.compatible

theorem Known.quiet (h : Known st) (hquiet : Quiet st st') : Known st' := by
  refine h.of_same [] (fun call' hcall' => ?_) ?_ rfl nofun
  · obtain ⟨call, hcall, hsame, _⟩ := hquiet.mem hcall'
    exact ⟨call, hcall, hsame⟩
  · rw [hquiet.histories.2, List.append_nil]

theorem Known.lookup (h : Known st) (sessionId : Str) (outcome : Lookup) :
    Known (lookupEntry sessionId st outcome) := by
  refine lookupEntry_keeps outcome h (fun _ => ?_) fun _ => ⟨h.calls, h.added, h.compatible⟩
  refine h.of_same [.opened sessionId] (fun call hcall => ⟨call, hcall, rfl⟩) rfl rfl ?_
  intro conversation m hmem
  cases List.mem_singleton.mp hmem

theorem Known.findEntry (h : Known st) {outcome : Lookup}
    (hstep : findEntry i outcome st = some st') : Known st' := by
  obtain ⟨conversation, _, ⟨rfl, rfl⟩ | ⟨made, rfl, rfl⟩⟩ := findEntry_spec hstep
  · have hfound : Known (findOrCreateEntry conversation.sessionId st).1 :=
      h.lookup conversation.sessionId .found
    obtain ⟨phase, hbind, _⟩ := bindCall_spec i conversation.sessionId st
    rw [hbind]
    exact hfound.of_same [] (fun _ => calls_setPhase) (List.append_nil _).symm rfl nofun
  · have hleft := h.lookup conversation.sessionId (.throws made)
    exact hleft.of_same [] (fun _ => calls_setPhase) (List.append_nil _).symm rfl nofun

theorem Known.addMessage (h : Known st) {now : Str} {m : Message}
    (hstep : addMessage i now m st = some st') : Known st' := by
  obtain ⟨conversation, e, a, entry, hcall, _, rfl⟩ := addMessage_spec hstep
  have hcalled := h.calls _ (List.mem_of_getElem? hcall)
  refine h.of_same _ (fun call hmem => ⟨call, hmem, rfl⟩)
    (recordMessage_journal e conversation now m entry st) ?_ fun other m' hmem => ?_
  · refine List.filterMap_eq_nil_iff.mpr fun record hrecord => ?_
    obtain ⟨_, _, rfl⟩ := List.mem_map.mp hrecord
    rfl
  · obtain ⟨_, _, heq⟩ := List.mem_map.mp hmem
    cases heq
    exact hcalled

theorem Known.arrive (h : Known st) {conversation : Conversation}
    (hapart : ∀ earlier ∈ calledIn st.journal, Compatible conversation earlier) :
    Known (arrive conversation st) := by
  have hcalled : calledIn (Session.arrive conversation st).journal =
      calledIn st.journal ++ [conversation] := List.filterMap_append
  have hmem : ∀ a, a ∈ calledIn st.journal ++ [conversation] →
      a ∈ calledIn st.journal ∨ a = conversation := by simp
  refine ⟨fun call hcall => ?_, fun other m hadded => ?_, fun a ha b hb => ?_⟩
  · rw [hcalled]
    rcases arrive_calls hcall with hold | ⟨rfl, _⟩
    · exact List.mem_append_left _ (h.calls call hold)
    · exact List.mem_append_right _ (List.mem_singleton_self _)
  · rw [hcalled]
    rcases List.mem_append.mp hadded with hold | hnew
    · exact List.mem_append_left _ (h.added other m hold)
    · cases List.mem_singleton.mp hnew
  · rw [hcalled] at ha hb
    rcases hmem a ha with hold | hnew <;> rcases hmem b hb with hold' | hnew'
    · exact h.compatible a hold b hold'
    · exact hnew' ▸ (hapart a hold).symm
    · exact hnew ▸ hapart b hold'
    · exact hnew ▸ hnew' ▸ compatible_refl _

theorem Known.step (h : Known st) {e : Event} (hapart : Apart st e)
    (hstep : step st e = some st') : Known st' := by
  cases e with
  | restart env config names defaultOutcome =>
      exact restart_keeps (motive := Known) (fun sessionId _ outcome h => h.lookup sessionId outcome)
        (fun _ h => ⟨h.calls, h.added, h.compatible⟩) hstep ⟨nofun, h.added, h.compatible⟩
  | reload newConfig constructed =>
      cases hstep
      exact reloadAgent_keeps h (h.quiet (quiet_hear st false))
        fun _ h => ⟨h.calls, h.added, h.compatible⟩
  | invoke sessionId =>
      cases hstep
      exact h.arrive (hapart _ rfl)
  | invokeChannel channel chatId sessionId =>
      cases hstep
      exact h.arrive (hapart _ rfl)
  | findEntry i outcome => exact h.findEntry hstep
  | addMessage i now m => exact h.addMessage hstep
  | getOrCreate sessionId outcome =>
      cases hstep
      exact h.lookup sessionId outcome
  | removeSession sessionId =>
      cases hstep
      unfold checkReserved
      split
      · exact h
      · exact ⟨h.calls, h.added, h.compatible⟩
  | eraseEntry k =>
      obtain ⟨_, _, _, rfl⟩ := eraseEntry_spec hstep
      exact ⟨h.calls, h.added, h.compatible⟩
  | tryLock k =>
      obtain ⟨_, _, _, _, rfl⟩ := tryLock_spec hstep
      exact ⟨h.calls, h.added, h.compatible⟩
  | deleteDirectory k deletion =>
      obtain ⟨sessionId, _, _, _, rfl⟩ := deleteDirectory_spec hstep
      refine h.of_same [.removed sessionId] (fun call hcall => ⟨call, hcall, rfl⟩) rfl rfl ?_
      intro conversation m hmem
      cases List.mem_singleton.mp hmem
  | _ => exact h.quiet (step_quiet hstep rfl)

end

/-! ## Runs -/

theorem known_run {st : State} (h : Run step Apart {} st) : Known st :=
  h.invariant (motive := Known) ⟨nofun, nofun, nofun⟩
    fun _ _ _ hknown hapart hstep => hknown.step hapart hstep

/-- Two ids share a directory if and only if their names clash, two chats an id if and only if
their keys clash, and conversations that are told apart when they come stay isolated in
every run. -/
theorem isolated_apart (st : State) (cwd : Location)
    (dataBasePath a b channel chatId channel' chatId' : Str) :
    (sessionLocation cwd dataBasePath a = sessionLocation cwd dataBasePath b ↔ NamesClash a b) ∧
      (makeSessionKey channel chatId = makeSessionKey channel' chatId' ↔
        (channel = channel' ∧ chatId = chatId') ∨ KeysClash channel chatId channel' chatId') ∧
      (Run step Apart {} st → Isolated st) := by
  refine ⟨?_, makeSessionKey_eq_iff _ _ _ _, fun h => ?_⟩
  · exact sessionLocation_inj.trans (sanitizePathName_eq_iff a b)
  · exact (known_run h).isolated (filed_run h)

/-- Two chats, a restart, and the first chat again with what it has said before. -/
theorem isolated_apart_chats : ∃ st, Run step Apart {} st ∧
    (st.entries[2]?).map (·.memoryBuffer.map (·.content)) = some [lit "hello"] ∧ Isolated st := by
  obtain ⟨st, hrun, hloaded⟩ := exists_run_of_any step Apart {}
    (p := fun st => (st.entries[2]?).map (·.memoryBuffer.map (·.content)) = some [lit "hello"])
    [.restart ⟨lit "/srv", none⟩ {} [] .found,
      .invokeChannel (lit "feishu") (lit "u1") [], .enterGate 0, .testGate 0, .findEntry 0 .found,
      .lockTurn 0, .addMessage 0 (lit "1") { role := lit "user", content := lit "hello" },
      .invokeChannel (lit "feishu") (lit "u2") [], .enterGate 1, .testGate 1, .findEntry 1 .found,
      .restart ⟨lit "/srv", none⟩ {}
        [(lit "feishu_u2", .found), (lit "__DEFAULT__", .found), (lit "feishu_u1", .found)] .found,
      .invokeChannel (lit "feishu") (lit "u1") []]
    (by decide +kernel)
  exact ⟨st, hrun, hloaded, (isolated_apart st [] [] [] [] [] [] [] []).2.2 hrun⟩

/-- A colon becomes an underscore, an underscore in a channel looks like the one that joins it to
the chat, and so the session of one chat loads what was added to another. -/
theorem conversations_mixed :
    (¬ ∀ cwd dataBasePath a b, a ≠ b →
        sessionLocation cwd dataBasePath a ≠ sessionLocation cwd dataBasePath b) ∧
      (¬ ∀ channel chatId channel' chatId', (channel, chatId) ≠ (channel', chatId') →
        makeSessionKey channel chatId ≠ makeSessionKey channel' chatId') ∧
      ¬ ∀ st, Run step AnyStep {} st → Isolated st := by
  refine ⟨fun h => ?_, fun h => ?_, fun h => ?_⟩
  · exact h [] [] (lit "a:b") (lit "a_b") (by decide) (by decide +kernel)
  · exact h (lit "a_b") (lit "c") (lit "a") (lit "b_c") (by decide) (by decide +kernel)
  · obtain ⟨st, hrun, hcalled, hloaded⟩ := exists_run_of_any step AnyStep {}
      (p := fun st => .session (lit "a_b") ∈ calledIn st.journal ∧
        ∃ entry ∈ st.entries, entry.sessionId = lit "a_b" ∧
          ¬ entry.memoryBuffer.Sublist (addedUnder (· = lit "a_b") st.journal))
      [.restart ⟨lit "/srv", none⟩ {} [] .found,
        .invoke (lit "a:b"), .enterGate 0, .testGate 0, .findEntry 0 .found, .lockTurn 0,
        .addMessage 0 (lit "1") { role := lit "user", content := lit "secret" },
        .invoke (lit "a_b"), .enterGate 1, .testGate 1, .findEntry 1 .found]
      (by decide +kernel)
    obtain ⟨entry, hentry, hid, hforeign⟩ := hloaded
    exact hforeign ((h st hrun).histories entry hentry _ hcalled hid)

end JiuwenCore.Session
