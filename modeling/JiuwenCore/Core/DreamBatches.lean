import JiuwenCore.Core.DreamPasses

/-!
# What the passes have read

While one pass runs at a time, every event comes into exactly one batch. Loops that overlap keep
to that as long as every `SetLastDreamCursor` finds the cursor its pass has read: otherwise an
event is in the batches of two passes that complete.
-/

namespace JiuwenCore.Dream

open HistoryStore (HistoryEntry)
open LogReaders (Span)

variable {s t s' : System}

/-! ## Overlapping passes -/

/-- The dream cursor has never been stored below an earlier one. -/
def NeverDecreases (s s' : System) : Prop :=
  (s.store.getLastDreamCursor :: s'.cursors).Pairwise (· ≤ ·)

/-- No event is in the batches of two passes. -/
def Disjoint (passes : List Pass) : Prop :=
  passes.Pairwise fun p q => ∀ entry ∈ p.batch, entry ∉ q.batch

instance : Decidable (NeverDecreases s s') := inferInstanceAs (Decidable (List.Pairwise ..))

instance (passes : List Pass) : Decidable (Disjoint passes) :=
  inferInstanceAs (Decidable (List.Pairwise ..))

theorem disjoint_iff {items : List HistoryEntry}
    (hnumbered : ∀ (k : Nat) entry, items[k]? = some entry → entry.cursor = k + 1)
    {passes : List Pass} (h : ∀ pass ∈ passes, pass.Reads items) :
    Disjoint passes ↔
      (passes.map (·.span)).Pairwise fun a b => ∀ k, a.Holds k → ¬ b.Holds k := by
  rw [List.pairwise_map]
  apply List.Pairwise.iff_of_mem
  intro p q hp hq
  constructor
  · intro hdisjoint k hpk hqk
    have hwithin := (h p hp).within
    have hlt : k < items.length := lt_of_lt_of_le hpk.2 hwithin
    have hat : items[k]? = some items[k] := List.getElem?_eq_getElem hlt
    have hinp := (h p hp).mem_iff.mpr ⟨k, hpk, hat⟩
    exact hdisjoint _ hinp ((h q hq).mem_iff.mpr ⟨k, hqk, hat⟩)
  · intro hapart entry hinp hinq
    obtain ⟨k, hpk, hk⟩ := (h p hp).mem_iff.mp hinp
    obtain ⟨m, hqm, hm⟩ := (h q hq).mem_iff.mp hinq
    have hkcursor := hnumbered k entry hk
    have hmcursor := hnumbered m entry hm
    have heq : k = m := by omega
    exact hapart k hpk (heq ▸ hqm)

theorem neverDecreases_iff (hnew : New s) (htracks : Tracks s') :
    NeverDecreases s s' ↔
      (s.log.position :: s'.log.stored.map (·.stop)).Pairwise (· ≤ ·) := by
  have hcursors : s.store.getLastDreamCursor :: s'.cursors =
      (s.log.position :: s'.log.stored.map (·.stop)).map Int.ofNat := by
    have hprocessed := hnew.intact.processed
    have hposition : ((s.store.getLastDreamCursor.toNat : Nat) : Int) =
        s.store.getLastDreamCursor := by omega
    rw [htracks.cursors, System.log, System.log, List.map_cons, List.map_map, List.map_map]
    exact congrArg (· :: _) hposition.symm
  rw [NeverDecreases, hcursors, List.pairwise_map]
  simp only [Int.ofNat_eq_natCast, Int.ofNat_le]

/-- In every run of the loops, the dream cursor never decreases and no event is given to Phase 1
by two passes that complete, if and only if every cursor that is stored comes from a pass that
has read the one it replaces. -/
theorem passes_sound_iff {s s' : System} (hnew : New s) (h : Run step AnyStep s s') :
    NeverDecreases s s' ∧ Disjoint s'.completed ↔ Run step Unmoved s s' := by
  have hsound : ∀ {t : System}, Tracks t →
      (NeverDecreases s t ∧ Disjoint t.completed ↔ LogReaders.Sound s.log.position t.log) := by
    intro t htracks
    rw [neverDecreases_iff hnew htracks, disjoint_iff htracks.intact.numbered htracks.completed]
    exact ⟨fun h => ⟨h.1, h.2⟩, fun h => ⟨h.increasing, h.apart⟩⟩
  constructor
  · intro hboth
    replace hboth := (hsound (hnew.run_any h).1).mp hboth
    induction h with
    | start => exact .start
    | @next t t' e hbefore _ hstep ih =>
        have htracks := (hnew.run_any hbefore).1
        rcases htracks.step_log hstep with ⟨rfl, hunmoved⟩ | ⟨e', hstep', hunmoved, _⟩
        · exact .next (ih hboth) hunmoved hstep
        · have hrun := ih (hboth.before hstep')
          have hchained := LogReaders.chained_run hnew.fresh (hnew.run_unmoved hrun).2
          exact .next hrun (hunmoved.mpr (hchained.unmoved hstep' hboth)) hstep
  · intro hrun
    rcases hnew.run_unmoved hrun with ⟨htracks, hlog⟩
    exact (hsound htracks).mpr (LogReaders.chained_run hnew.fresh hlog).sound

/-- A store without events. -/
def emptySystem (loops : List Loop) : System where
  store := {}
  loops := loops

theorem emptySystem_new {loops : List Loop} (h : ∀ loop ∈ loops, loop.stage = .waiting) :
    New (emptySystem loops) where
  intact := ⟨rfl, rfl, nofun, rfl, le_refl 0, le_refl 0⟩
  waiting := h
  given := rfl
  completed := rfl
  cursors := rfl

def hello : HistoryStore.MemoryEvent where
  timestamp := lit "t"
  sessionId := lit "s1"
  role := lit "user"
  content := lit "hi"

/-- Two events, the loop of a draining agent with batches of one event, and that of the agent
that replaces it. -/
def overlapping : List Event :=
  [.append [] hello, .append [] hello, .begin 0, .read 0, .reload {}, .begin 1, .read 1,
    .complete 1, .complete 0]

theorem overlapping_loops : ¬ ∀ s s' : System, New s → Run step AnyStep s s' →
    NeverDecreases s s' ∧ Disjoint s'.completed := by
  intro h
  have hfound := exists_run_of_any step AnyStep
    (emptySystem [{ config := { maxBatchSize := 1 } }]) overlapping
    (p := fun t => ¬ (NeverDecreases (emptySystem [{ config := { maxBatchSize := 1 } }]) t ∧
      Disjoint t.completed)) (by decide +kernel)
  obtain ⟨t, hrun, hunsound⟩ := hfound
  exact hunsound (h _ t (emptySystem_new (by decide)) hrun)

/-- One loop, two events, and a batch of each. -/
theorem single_loop_sound : ∃ s', Run step AnyStep (emptySystem [{ config := {} }]) s' ∧
    s'.completed.length = 2 ∧
      (NeverDecreases (emptySystem [{ config := {} }]) s' ∧ Disjoint s'.completed) := by
  have hfound := exists_run_of_any step Unmoved
    (emptySystem [{ config := {} }])
    [.append [] hello, .begin 0, .read 0, .append [] hello, .complete 0, .begin 0, .read 0,
      .complete 0]
    (p := fun t => t.completed.length = 2) (by decide +kernel)
  obtain ⟨t, hrun, hlength⟩ := hfound
  have hany := hrun.mono fun _ _ _ => trivial
  exact ⟨t, hany, hlength, (passes_sound_iff (emptySystem_new (by decide)) hany).mpr hrun⟩

/-! ## One pass at a time -/

/-- The number of the pass the loop is in. -/
def Stage.underWay? : Stage → Option Nat
  | waiting => none
  | cursorRead number _ => some number
  | analysing pass => some pass.number

/-- The number of the pass the loop is in, if it has read the history. -/
def Stage.hasRead? : Stage → Option Nat
  | waiting | cursorRead _ _ => none
  | analysing pass => some pass.number

/-- From `s` over `t` to `s'`: the batches are consecutive parts of the events behind the cursor
at the start; after as many passes as there are events, each is in one of them; what is appended
while a pass is under way is in the batch of a later one. -/
structure ExactlyOnce (underWay : Stage → Option Nat) (s t s' : System) : Prop where
  consecutive : (s'.given.map (·.batch)).flatten <+:
    s'.store.history.readUnprocessedHistory s.store.getLastDreamCursor
  nonempty : ∀ pass ∈ s'.given, pass.batch ≠ []
  once : (t.store.history.readUnprocessedHistory s.store.getLastDreamCursor).length ≤
      s'.ended - t.ended →
    ∀ entry ∈ t.store.history.readUnprocessedHistory s.store.getLastDreamCursor,
      ∃! k : Nat, ∃ pass : Pass, s'.given[k]? = some pass ∧ entry ∈ pass.batch
  later : ∀ loop ∈ t.loops, ∀ number, underWay loop.stage = some number →
    ∀ pass ∈ s'.given, ∀ entry ∈ pass.batch, entry ∉ t.store.history.readAllEntries →
      number < pass.number

theorem Disjoint.unique {passes : List Pass} (h : Disjoint passes) {entry : HistoryEntry}
    {k m : Nat} {p q : Pass} (hk : passes[k]? = some p) (hp : entry ∈ p.batch)
    (hm : passes[m]? = some q) (hq : entry ∈ q.batch) : k = m := by
  obtain ⟨hklt, rfl⟩ := List.getElem?_eq_some_iff.mp hk
  obtain ⟨hmlt, rfl⟩ := List.getElem?_eq_some_iff.mp hm
  have hpairs := List.pairwise_iff_getElem.mp h
  rcases Nat.lt_trichotomy k m with hlt | heq | hgt
  · exact absurd hq (hpairs k m hklt hmlt hlt entry hp)
  · exact heq
  · exact absurd hp (hpairs m k hmlt hklt hgt entry hq)

/-! ### Numbers of passes -/

/-- The passes under way have smaller numbers than the next one. -/
def Counted (s : System) : Prop :=
  ∀ loop ∈ s.loops, ∀ number, loop.stage.underWay? = some number → number < s.begun

/-- Whatever has called Phase 1 since `old` belongs to a later pass than `number`, and so does
what is going to. -/
structure Since (old : List Pass) (number : Nat) (s : System) : Prop where
  next : number < s.begun
  given : ∀ pass ∈ s.given, pass ∈ old ∨ number < pass.number
  reading : ∀ loop ∈ s.loops, ∀ n c, loop.stage = .cursorRead n c → number < n

theorem New.counted (h : New s) : Counted s := by
  intro loop hloop number hnumber
  rw [h.waiting loop hloop] at hnumber
  cases hnumber

theorem Counted.loops_set (h : Counted s) {i : Nat} {loop : Loop} {begun : Nat}
    (hbegun : s.begun ≤ begun)
    (hloop : ∀ number, loop.stage.underWay? = some number → number < begun) :
    ∀ l ∈ s.loops.set i loop, ∀ number, l.stage.underWay? = some number → number < begun := by
  intro l hl number hnumber
  rcases List.mem_or_eq_of_mem_set hl with hl | rfl
  · exact lt_of_lt_of_le (h l hl number hnumber) hbegun
  · exact hloop number hnumber

theorem Counted.step (h : Counted s) {e : Event} (hstep : Dream.step s e = some s') :
    Counted s' := by
  cases step_spec hstep with
  | append hroom happend => exact h
  | refused => exact h
  | reload config => exact forall_mem_snoc h nofun
  | @begin i config hi =>
      apply h.loops_set (Nat.le_succ _)
      intro number hnumber
      cases hnumber
      exact Nat.lt_succ_self _
  | nothing hi hnone => exact h.loops_set (Nat.le_refl _) nofun
  | read hi hbatch hsome =>
      apply h.loops_set (Nat.le_refl _)
      intro number hnumber
      exact h _ (List.mem_of_getElem? hi) number hnumber
  | complete hi hlast => exact h.loops_set (Nat.le_refl _) nofun
  | throws hi => exact h.loops_set (Nat.le_refl _) nofun

theorem Since.reading_set {old : List Pass} {number : Nat} (h : Since old number s) {i : Nat}
    {loop : Loop} (hloop : ∀ n c, loop.stage = .cursorRead n c → number < n) :
    ∀ l ∈ s.loops.set i loop, ∀ n c, l.stage = .cursorRead n c → number < n := by
  intro l hl n c hstage
  rcases List.mem_or_eq_of_mem_set hl with hl | rfl
  · exact h.reading l hl n c hstage
  · exact hloop n c hstage

theorem Since.step {old : List Pass} {number : Nat} (h : Since old number s) {e : Event}
    (hstep : Dream.step s e = some s') : Since old number s' := by
  cases step_spec hstep with
  | append hroom happend => exact ⟨h.next, h.given, h.reading⟩
  | refused => exact h
  | reload config => exact ⟨h.next, h.given, forall_mem_snoc h.reading nofun⟩
  | begin hi =>
      refine ⟨Nat.lt_succ_of_lt h.next, h.given, h.reading_set ?_⟩
      intro n c hstage
      cases hstage
      exact h.next
  | nothing hi hnone => exact ⟨h.next, h.given, h.reading_set nofun⟩
  | read hi hbatch hsome =>
      refine ⟨h.next, forall_mem_snoc h.given (.inr ?_), h.reading_set nofun⟩
      exact h.reading _ (List.mem_of_getElem? hi) _ _ rfl
  | complete hi hlast => exact ⟨h.next, h.given, h.reading_set nofun⟩
  | throws hi => exact ⟨h.next, h.given, h.reading_set nofun⟩

/-- While one pass at a time runs and this one has read the history, no other is about to. -/
theorem since_hasRead (hnew : New s) (h : Run step OneByOne s t) {loop : Loop}
    (hloop : loop ∈ t.loops) {number : Nat} (hnumber : loop.stage.hasRead? = some number) :
    Since t.given number t := by
  have hcounted : Counted t := by
    apply h.invariant hnew.counted
    intro _ _ _ hcounted _ hstep
    exact hcounted.step hstep
  have halone := LogReaders.alone_run hnew.fresh (hnew.run_inTurn h).2
  obtain ⟨config, stage⟩ := loop
  cases stage with
  | waiting => cases hnumber
  | cursorRead n c => cases hnumber
  | analysing pass =>
      refine ⟨hcounted _ hloop number hnumber, fun p hp => .inl hp, ?_⟩
      rintro ⟨config', stage'⟩ hother n c rfl
      obtain ⟨i, hi⟩ := List.mem_iff_getElem?.mp hloop
      obtain ⟨j, hj⟩ := List.mem_iff_getElem?.mp hother
      have heq := halone.one i j _ _ (readers_at hi) (readers_at hj) nofun nofun
      rw [heq, hj] at hi
      cases hi

/-! ### The batches -/

theorem given_slices (h : Tracks s) :
    s.given.map (·.batch) =
      (s.given.map (·.span)).map (·.slice s.store.history.readAllEntries) := by
  rw [List.map_map]
  apply List.map_congr_left
  intro pass hpass
  exact (h.given pass hpass).batch.symm

/-- The events behind the dream cursor of an intact store. -/
theorem unprocessed_since (hnew : New s) (htracks : Tracks t) :
    t.store.history.readUnprocessedHistory s.store.getLastDreamCursor =
      t.store.history.readAllEntries.drop s.log.position :=
  htracks.intact.unprocessed hnew.intact.processed.1

theorem batches_exactly_once {s t s' : System} (hnew : New s) (h : Run step OneByOne s t)
    (h' : Run step OneByOne t s') : ExactlyOnce Stage.hasRead? s t s' := by
  rcases hnew.run_inTurn h with ⟨htracks, hlog⟩
  rcases hnew.run_inTurn (h.trans h') with ⟨htracks', hlog'⟩
  have halone := LogReaders.alone_run hnew.fresh hlog
  have halone' := LogReaders.alone_run hnew.fresh hlog'
  have hlater : Run LogReaders.step LogReaders.InTurn t.log s'.log :=
    (htracks.run_log (fun _ _ _ hone _ hturn => hturn hone) h').2
  obtain ⟨b, htaken, hposition, hb⟩ := halone'.taken
  have hunprocessed := unprocessed_since hnew htracks
  refine ⟨?_, fun pass hpass => (htracks'.given pass hpass).nonempty, ?_, ?_⟩
  · rw [unprocessed_since hnew htracks', given_slices htracks']
    have hflatten := htaken.flatten s'.store.history.readAllEntries
    rw [System.log] at hflatten
    rw [hflatten]
    exact List.take_prefix _ _
  · intro henough entry hentry
    rw [hunprocessed, List.length_drop] at henough
    rw [hunprocessed] at hentry
    obtain ⟨n, hn⟩ := List.mem_iff_getElem?.mp hentry
    rw [List.getElem?_drop] at hn
    obtain ⟨hlt, heq⟩ := List.getElem?_eq_some_iff.mp hn
    have hprogress := LogReaders.position_run halone hlater
    have hstart := halone.follows.le
    have hitems : t.log.items.length = t.store.history.readAllEntries.length := rfl
    have hpasses : s'.log.passes - t.log.passes = s'.ended - t.ended := rfl
    have hend : s.log.position + n < b := by omega
    obtain ⟨span, hspan, hholds⟩ := htaken.covers (Nat.le_add_right _ n) hend
    obtain ⟨pass, hpass, rfl⟩ := List.mem_map.mp hspan
    obtain ⟨k, hk⟩ := List.mem_iff_getElem?.mp hpass
    have hentry' : s'.store.history.readAllEntries[s.log.position + n]? = some entry :=
      heq ▸ List.prefix_iff_getElem?.mp (LogReaders.items_run hlater) _ hlt
    have hin := (htracks'.given pass hpass).mem_iff.mpr ⟨_, hholds, hentry'⟩
    refine ⟨k, ⟨pass, hk, hin⟩, ?_⟩
    rintro m ⟨pass', hm, hin'⟩
    have hdisjoint := (disjoint_iff htracks'.intact.numbered htracks'.given).mpr htaken.apart
    exact hdisjoint.unique hm hin' hk hin
  · intro loop hloop number hnumber pass hpass entry hentry hfresh
    have hsince : Since t.given number s' := by
      apply h'.invariant (since_hasRead hnew h hloop hnumber)
      intro _ _ _ hsince _ hstep
      exact hsince.step hstep
    rcases hsince.given pass hpass with hold | hlt
    · obtain ⟨k, _, hk⟩ := (htracks.given pass hold).mem_iff.mp hentry
      exact absurd (List.mem_of_getElem? hk) hfresh
    · exact hlt

/-- A pass has read the dream cursor, an event is appended, and the pass reads the history. -/
theorem appended_in_own_batch : ¬ ∀ s t s' : System, New s → Run step OneByOne s t →
    Run step OneByOne t s' → ExactlyOnce Stage.underWay? s t s' := by
  intro h
  have hfound := exists_runs_of_any step OneByOne
    (emptySystem [{ config := {} }])
    [.append [] hello, .begin 0] [.append [] hello, .read 0]
    (p := fun t s' => ∃ loop ∈ t.loops, ∃ pass ∈ s'.given, ∃ entry ∈ pass.batch,
      entry ∉ t.store.history.readAllEntries ∧ loop.stage.underWay? = some pass.number)
    (by decide +kernel)
  obtain ⟨t, s', hrun, hrun', loop, hloop, pass, hpass, entry, hentry, hfresh, hnumber⟩ := hfound
  have honce := h _ t s' (emptySystem_new (by decide)) hrun hrun'
  exact absurd (honce.later loop hloop _ hnumber pass hpass entry hentry hfresh)
    (Nat.lt_irrefl _)

/-- Two passes, and an event that comes while the first is with the model. -/
theorem two_events_once : ∃ t s', Run step OneByOne (emptySystem [{ config := {} }]) t ∧
    Run step OneByOne t s' ∧ s'.given.length = 2 ∧
      ExactlyOnce Stage.hasRead? (emptySystem [{ config := {} }]) t s' := by
  have hfound := exists_runs_of_any step OneByOne
    (emptySystem [{ config := {} }])
    [.append [] hello, .begin 0, .read 0] [.append [] hello, .complete 0, .begin 0, .read 0]
    (p := fun _ s' => s'.given.length = 2) (by decide +kernel)
  obtain ⟨t, s', hrun, hrun', hlength⟩ := hfound
  exact ⟨t, s', hrun, hrun', hlength,
    batches_exactly_once (emptySystem_new (by decide)) hrun hrun'⟩

end JiuwenCore.Dream
