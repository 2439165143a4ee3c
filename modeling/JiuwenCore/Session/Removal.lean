import JiuwenCore.Session.Registry

/-!
# What a removal takes away

`RemoveSession` compares ids and deletes directories. A reserved session survives the
removal of another id unless the directory of that id is one of its own.
-/

namespace JiuwenCore.Session

/-- `RemoveSession` with nothing in between and a deletion that succeeds. -/
def removeSession (sessionId : Str) (st : State) : Option State :=
  if sessionId = [] ∨ sessionId ∈ st.reservedSessions then some (checkReserved sessionId st)
  else
    let k := st.removals.length
    (((eraseEntry k (checkReserved sessionId st)).bind (tryLock k)).bind
      (deleteDirectory k .complete))

/-- The directory of a session: that of its entry, or else the computed one. -/
def State.storageOf (st : State) (sessionId : Str) : Location :=
  match (st.sessions.lookup sessionId).bind (st.entries[·]?) with
  | some entry => entry.storagePath
  | none => st.sessionDirectory sessionId

/-- Every reserved session keeps its place in the registry, its entry and its history. -/
def ReservedKept (st st' : State) : Prop :=
  ∀ id ∈ st.reservedSessions, st'.sessions.lookup id = st.sessions.lookup id ∧
    (∀ e, st.sessions.lookup id = some e → st'.entries[e]? = st.entries[e]?) ∧
    st'.disk.lookup (st.storageOf id) = st.disk.lookup (st.storageOf id)

/-- No directory of a reserved session lies in the one of the id. -/
def Spares (st : State) (sessionId : Str) : Prop :=
  ∀ id ∈ st.reservedSessions, (st.disk.lookup (st.storageOf id)).isSome →
    ¬ st.sessionDirectory sessionId <+: st.storageOf id

section

variable {st : State} {sessionId : Str}

theorem getElem?_setRemovalPhase (st : State) {k : Nat} {removal : Removal} (phase : RemovalPhase)
    (h : st.removals[k]? = some removal) :
    (st.setRemovalPhase k phase).removals[k]? = some { removal with phase := phase } := by
  rw [State.setRemovalPhase, List.getElem?_modify_eq, h]
  rfl

/-- The state behind the four steps of a removal. -/
theorem removeSession_unreserved (h : ¬ (sessionId = [] ∨ sessionId ∈ st.reservedSessions)) :
    ∃ removals journal, removeSession sessionId st =
      some { st with
        sessions := st.sessions.erase sessionId
        disk :=
          if st.held (st.sessions.lookup sessionId) then st.disk
          else st.disk.removeBelow (st.sessionDirectory sessionId) Deletion.complete.reaches
        removals := removals
        journal := journal } := by
  have hunreserved : (checkReserved sessionId st).removals[st.removals.length]? =
      some ⟨sessionId, st.sessionDirectory sessionId, .unreserved⟩ := by
    rw [checkReserved, if_neg h]
    exact List.getElem?_concat_length ..
  have herased := getElem?_setRemovalPhase
    { checkReserved sessionId st with
      sessions := (checkReserved sessionId st).sessions.erase sessionId }
    (.erased ((checkReserved sessionId st).sessions.lookup sessionId)) hunreserved
  rw [removeSession, if_neg h]
  dsimp only
  rw [eraseEntry, hunreserved]
  dsimp only
  rw [Option.bind_some, tryLock, herased]
  dsimp only
  rw [Option.bind_some, deleteDirectory, getElem?_setRemovalPhase _ _ herased]
  dsimp only
  rw [checkReserved, if_neg h]
  exact ⟨_, _, rfl⟩

/-- Directories under one base path lie in each other only if the ids have one name. -/
theorem spares_iff_names (hcomputed : ∀ id ∈ st.reservedSessions,
      st.storageOf id = st.sessionDirectory id) :
    Spares st sessionId ↔ ∀ id ∈ st.reservedSessions,
      (st.disk.lookup (st.sessionDirectory id)).isSome → ¬ NamesClash sessionId id := by
  refine forall₂_congr fun id hid => ?_
  rw [hcomputed id hid, ← sanitizePathName_eq_iff]
  simp only [sessionDirectory_eq, List.prefix_append_right_inj, List.cons_prefix_cons, true_and,
    List.nil_prefix, and_true]

/-- A removal keeps the reserved sessions if and only if it is refused, or it deletes nothing
because a turn has the session, or no directory of theirs lies in the one it deletes. -/
theorem remove_keeps_reserved_iff (sessionId : Str) (st : State) :
    ∃ st', removeSession sessionId st = some st' ∧
      (ReservedKept st st' ↔ (sessionId = [] ∨ sessionId ∈ st.reservedSessions) ∨
        st.held (st.sessions.lookup sessionId) ∨ Spares st sessionId) := by
  by_cases hrefused : sessionId = [] ∨ sessionId ∈ st.reservedSessions
  · refine ⟨st, ?_, iff_of_true (fun _ _ => ⟨rfl, fun _ _ => rfl, rfl⟩) (Or.inl hrefused)⟩
    rw [removeSession, if_pos hrefused, checkReserved, if_pos hrefused]
  · obtain ⟨removals, journal, hremove⟩ := removeSession_unreserved hrefused
    refine ⟨_, hremove, ?_⟩
    rw [or_iff_right hrefused]
    have hother : ∀ id ∈ st.reservedSessions,
        (st.sessions.erase sessionId).lookup id = st.sessions.lookup id := by
      intro id hid
      refine AList.lookup_erase_ne fun heq => hrefused (Or.inr ?_)
      exact heq ▸ hid
    by_cases hheld : st.held (st.sessions.lookup sessionId) = true
    · refine iff_of_true (fun id hid => ⟨hother id hid, fun _ _ => rfl, ?_⟩) (Or.inl hheld)
      dsimp only
      rw [if_pos hheld]
    · rw [or_iff_right hheld]
      refine forall₂_congr fun id hid => ?_
      dsimp only
      rw [if_neg hheld, Disk.lookup_removeBelow_eq_iff]
      simp only [hother id hid, Deletion.reaches, true_and, and_true, implies_true]

/-- The directory of this id is that of the default session. -/
theorem default_session_deleted : ¬ ∀ st sessionId st', Run step AnyStep {} st →
    removeSession sessionId st = some st' → ReservedKept st st' := by
  intro h
  obtain ⟨st, hrun, hlost⟩ := exists_run_of_any step AnyStep {}
    (p := fun st => kDefaultSessionId ∈ st.reservedSessions ∧
      (removeSession (lit "_:DEFAULT__") st).any fun st' => decide
        (st'.disk.lookup (st.storageOf kDefaultSessionId) ≠
          st.disk.lookup (st.storageOf kDefaultSessionId)))
    [.restart ⟨lit "/srv", none⟩ {} [] .found]
    (by decide +kernel)
  obtain ⟨hreserved, hlost⟩ := hlost
  obtain ⟨st', hst', hne⟩ := (Option.any_eq_true _ _).mp hlost
  exact of_decide_eq_true hne (h st _ st' hrun hst' _ hreserved).2.2

end

end JiuwenCore.Session
