import JiuwenCore.Core.DreamFailures
import JiuwenCore.Lib.Backlog

/-!
# What the passes consume

The end of a batch is an iterator: `begin` and an `int`, the smaller of the number of entries
and the configured size. The cursor of the pass is read one element in front of it.
-/

namespace JiuwenCore.Dream

open Backlog (Ordered)
open HistoryStore (HistoryEntry Store readCursor_range)
open Models

variable {σ : Type} {config : DreamConfig} {entries : List HistoryEntry} {d d' d'' : DreamStore}

/-! ## The batch as a range -/

/-- `batchEnd - entries.begin()`. -/
def batchEnd (config : DreamConfig) (entries : List HistoryEntry) : Int :=
  (min (Int32.ofNat entries.length) config.maxBatchSize).toInt

/-- `(batchEnd - 1)->cursor`, on both exits of `Run`; `none` where no entry stands there. -/
def newCursor (config : DreamConfig) (entries : List HistoryEntry) : Option Int :=
  if 0 ≤ batchEnd config entries - 1 then
    (entries[(batchEnd config entries - 1).toNat]?).map (·.cursor)
  else none

/-- The batch is a prefix with an entry, and its last cursor is a new one. -/
structure Sound (config : DreamConfig) (d : DreamStore) : Prop where
  inside : 0 < batchEnd config d.unprocessed ∧
    batchEnd config d.unprocessed ≤ d.unprocessed.length
  moved : ∃ cursor, newCursor config d.unprocessed = some cursor ∧ d.getLastDreamCursor < cursor

theorem toInt_min (a b : Int32) : (min a b).toInt = min a.toInt b.toInt := by
  by_cases h : a ≤ b
  · have hle := Int32.le_iff_toInt_le.mp h
    rw [show min a b = a from if_pos h]
    omega
  · have hlt : ¬ a.toInt ≤ b.toInt := fun hle => h (Int32.le_iff_toInt_le.mpr hle)
    rw [show min a b = b from if_neg h]
    omega

theorem batchEnd_eq (hfits : entries.length < 2 ^ 31) :
    batchEnd config entries = min (entries.length : Int) config.maxBatchSize.toInt := by
  rw [batchEnd, toInt_min, Int32.toInt_ofNat_of_lt hfits]

/-- A number of entries beyond the largest `int` is negative as one. -/
theorem fits_of_batchEnd_pos (hpos : 0 < batchEnd config entries)
    (hcount : entries.length < 2 ^ 32) :
    0 < config.maxBatchSize.toInt ∧ entries.length < 2 ^ 31 := by
  rw [batchEnd, toInt_min, Int32.toInt_ofNat', Int32.size, Int.bmod_def] at hpos
  omega

/-- The range and the batch the pass reads are the same. -/
theorem batchOf_eq_take (config : DreamConfig) (entries : List HistoryEntry) :
    batchOf config entries = entries.take (batchEnd config entries).toNat := rfl

theorem newCursor_eq (hinside : 0 < batchEnd config entries ∧
      batchEnd config entries ≤ entries.length) :
    ∃ last, (batchOf config entries).getLast? = some last ∧
      entries[(batchEnd config entries - 1).toNat]? = some last ∧
        newCursor config entries = some last.cursor := by
  have hlt : (batchEnd config entries - 1).toNat < entries.length := by omega
  have hlast := List.getElem?_eq_getElem hlt
  have hlength : (entries.take (batchEnd config entries).toNat).length - 1 =
      (batchEnd config entries - 1).toNat := by
    rw [List.length_take]
    omega
  refine ⟨entries[(batchEnd config entries - 1).toNat], ?_, hlast, ?_⟩
  · rw [batchOf_eq_take, List.getLast?_eq_getElem?, hlength, List.getElem?_take_of_lt (by omega)]
    exact hlast
  · rw [newCursor, if_pos (by omega), hlast]
    rfl

/-! ## Passes that return -/

/-- A pass over the store that returns, and what it leaves there. -/
def Returns (config : DreamConfig) (d d' : DreamStore) : Prop :=
  ∃ (σ : Type) (tools : FileTools σ) (answers : Answers) (now : Str) (fuel : Nat) (files : σ)
    (ended : PassEnd σ), run config tools answers now fuel files d = some ended ∧
      ended.outcome.isOk = true ∧ ended.store = d'

/-- As many passes one after another, with no event between them. -/
inductive Passes (config : DreamConfig) (d : DreamStore) : Nat → DreamStore → Prop
  | start : Passes config d 0 d
  | next {n : Nat} {d' d'' : DreamStore} : Passes config d n d' → Returns config d' d'' →
      Passes config d (n + 1) d''

/-- A pass that returns has moved the cursor to the last entry of its batch. -/
theorem store_of_returns {last : HistoryEntry}
    (hlast : (batchOf config d.unprocessed).getLast? = some last) (hsome : d.unprocessed ≠ [])
    (h : Returns config d d') : d' = d.setLastDreamCursor last.cursor := by
  obtain ⟨σ, tools, answers, now, fuel, files, ended, hrun, hok, rfl⟩ := h
  simp only [run, if_neg hsome, hlast] at hrun
  split at hrun
  · cases hrun
    cases hok
  · split at hrun
    · cases hrun
      rfl
    · obtain ⟨phase2, -, rfl⟩ := Option.map_eq_some_iff.mp hrun
      exact if_pos hok

theorem store_of_returns_nil (hnone : d.unprocessed = []) (h : Returns config d d') : d' = d := by
  obtain ⟨σ, tools, answers, now, fuel, files, ended, hrun, -, rfl⟩ := h
  simp only [run, if_pos hnone, Option.some.injEq] at hrun
  rw [← hrun]

/-- A model that finds nothing. -/
def noFindings : Answers := fun _ => .ok { content := lit "[SKIP]" }

/-- A pass returns where its batch has an entry. -/
theorem exists_returns {last : HistoryEntry}
    (hlast : (batchOf config d.unprocessed).getLast? = some last) (hsome : d.unprocessed ≠ []) :
    ∃ d', Returns config d d' := by
  have hfindings : parseFindings (lit "[SKIP]") = [] := by decide +kernel
  have hrun : run config noFiles noFindings [] 0 () d =
      some { outcome := .ok false
             store := d.setLastDreamCursor last.cursor
             files := ()
             prompts := [phase1Prompt config noFiles []
               (historyText config (batchOf config d.unprocessed)) ()] } := by
    simp only [run, if_neg hsome, hlast, noFindings, if_pos hfindings]
  exact ⟨_, Unit, noFiles, noFindings, [], 0, (), _, hrun, rfl, rfl⟩

/-! ## A backlog -/

/-- Events numbered in increasing order, by `int`s. -/
structure Numbered (d : DreamStore) : Prop where
  ordered : Ordered (·.cursor) d.unprocessed
  ints : ∀ entry ∈ d.unprocessed, entry.cursor < 2 ^ 31

theorem Numbered.count (h : Numbered d) : d.unprocessed.length < 2 ^ 32 := by
  have hrange := readCursor_range d.dreamCursorFile
  have hlt := h.ordered.length_lt (a := d.getLastDreamCursor) (b := 2 ^ 31) hrange.2
    fun entry hentry => ⟨(mem_unprocessed hentry).2, h.ints entry hentry⟩
  have hmin : -2 ^ 31 ≤ d.getLastDreamCursor := hrange.1
  omega

/-- The next pass reads what stands behind the batch. -/
theorem unprocessed_moved (h : Numbered d) {k : Nat} {last : HistoryEntry}
    (hlast : d.unprocessed[k]? = some last) :
    (d.setLastDreamCursor last.cursor).unprocessed = d.unprocessed.drop (k + 1) := by
  have hmem := List.mem_of_getElem? hlast
  have hbehind := (mem_unprocessed hmem).2
  have hmin : -2 ^ 31 ≤ last.cursor :=
    le_of_lt (lt_of_le_of_lt (readCursor_range d.dreamCursorFile).1 hbehind)
  have hread : ∀ c, d.history.readUnprocessedHistory c =
      Backlog.above (·.cursor) c d.history.readAllEntries := by
    intro c
    simp only [Store.readUnprocessedHistory, Backlog.above, Int.not_le]
  have hcursor := getLastDreamCursor_set (d := d) hmin (h.ints last hmem)
  calc (d.setLastDreamCursor last.cursor).unprocessed
      = Backlog.above (·.cursor) last.cursor d.history.readAllEntries := by
        rw [DreamStore.unprocessed, hcursor]
        exact hread _
    _ = Backlog.above (·.cursor) last.cursor d.unprocessed := by
        rw [DreamStore.unprocessed, hread, Backlog.above_above (le_of_lt hbehind)]
    _ = d.unprocessed.drop (k + 1) := h.ordered.above_key hlast

theorem Numbered.drop (h : Numbered d) {k : Nat} (hdrop : d'.unprocessed = d.unprocessed.drop k) :
    Numbered d' where
  ordered := hdrop ▸ h.ordered.drop k
  ints := fun entry hentry => h.ints entry (List.mem_of_mem_drop (hdrop ▸ hentry))

/-! ## What the configuration has to admit -/

theorem sound_of_pos (hpos : 0 < config.maxBatchSize.toInt)
    (hfits : d.unprocessed.length < 2 ^ 31) (hsome : d.unprocessed ≠ []) : Sound config d := by
  have hlength := List.length_pos_iff.mpr hsome
  have hend : batchEnd config d.unprocessed = _ := batchEnd_eq hfits
  have hinside : 0 < batchEnd config d.unprocessed ∧
      batchEnd config d.unprocessed ≤ d.unprocessed.length := by omega
  obtain ⟨last, -, hat, hcursor⟩ := newCursor_eq hinside
  exact ⟨hinside, last.cursor, hcursor, (mem_unprocessed (List.mem_of_getElem? hat)).2⟩

/-- One pass takes as many entries as the configuration admits off the backlog. -/
theorem unprocessed_of_returns (h : Numbered d) (hpos : 0 < config.maxBatchSize.toInt)
    (hfits : d.unprocessed.length < 2 ^ 31) (hreturns : Returns config d d') :
    d'.unprocessed = d.unprocessed.drop config.maxBatchSize.toInt.toNat := by
  by_cases hsome : d.unprocessed = []
  · rw [store_of_returns_nil hsome hreturns, hsome, List.drop_nil]
  · have hend : batchEnd config d.unprocessed = _ := batchEnd_eq hfits
    obtain ⟨last, hlast, hat, -⟩ := newCursor_eq (sound_of_pos hpos hfits hsome).inside
    rw [store_of_returns hlast hsome hreturns, unprocessed_moved h hat]
    by_cases hall : (d.unprocessed.length : Int) ≤ config.maxBatchSize.toInt
    · rw [List.drop_eq_nil_of_le (by omega), List.drop_eq_nil_of_le (by omega)]
    · congr 1
      omega

/-- After `n` passes, `n` batches are off the backlog. -/
theorem unprocessed_of_passes (h : Numbered d) (hpos : 0 < config.maxBatchSize.toInt)
    (hfits : d.unprocessed.length < 2 ^ 31) {n : Nat} (hpasses : Passes config d n d') :
    d'.unprocessed = d.unprocessed.drop (n * config.maxBatchSize.toInt.toNat) := by
  induction hpasses with
  | start => rw [Nat.zero_mul, List.drop_zero]
  | @next n d' d'' _ hreturns ih =>
      have hfits' : d'.unprocessed.length < 2 ^ 31 := by
        rw [ih, List.length_drop]
        omega
      rw [unprocessed_of_returns (h.drop ih) hpos hfits' hreturns, ih, List.drop_drop,
        Nat.succ_mul]

theorem exists_passes (h : Numbered d) (hpos : 0 < config.maxBatchSize.toInt)
    (hfits : d.unprocessed.length < 2 ^ 31) (n : Nat) : ∃ d', Passes config d n d' := by
  induction n with
  | zero => exact ⟨d, .start⟩
  | succ n ih =>
      obtain ⟨d', hpasses⟩ := ih
      have hdrop := unprocessed_of_passes h hpos hfits hpasses
      have hfits' : d'.unprocessed.length < 2 ^ 31 := by
        rw [hdrop, List.length_drop]
        omega
      by_cases hsome : d'.unprocessed = []
      · exact ⟨d', .next hpasses ⟨Unit, noFiles, noFindings, [], 0, (), _, if_pos hsome, rfl, rfl⟩⟩
      · obtain ⟨last, hlast, -⟩ := newCursor_eq (sound_of_pos hpos hfits' hsome).inside
        obtain ⟨d'', hreturns⟩ := exists_returns hlast hsome
        exact ⟨d'', .next hpasses hreturns⟩

/-- The next pass is sound, and so is every pass after it, until the backlog is consumed. -/
structure Consumes (config : DreamConfig) (d : DreamStore) : Prop where
  sound : Sound config d
  again : ∀ n d', Passes config d n d' → d'.unprocessed ≠ [] → Sound config d'
  consumed : ∃ n, (∃ d', Passes config d n d') ∧ ∀ d', Passes config d n d' → d'.unprocessed = []

/-- A backlog is consumed exactly where the configured size is positive and the number of the
entries an `int`. -/
theorem consumes_iff (config : DreamConfig) (d : DreamStore) (hsome : d.unprocessed ≠ [])
    (h : Numbered d) :
    Consumes config d ↔ 0 < config.maxBatchSize.toInt ∧ d.unprocessed.length < 2 ^ 31 := by
  constructor
  · intro hconsumes
    exact fits_of_batchEnd_pos hconsumes.sound.inside.1 h.count
  · rintro ⟨hpos, hfits⟩
    refine ⟨sound_of_pos hpos hfits hsome, ?_, d.unprocessed.length,
      exists_passes h hpos hfits _, ?_⟩
    · intro n d' hpasses hsome'
      have hdrop := unprocessed_of_passes h hpos hfits hpasses
      refine sound_of_pos hpos ?_ hsome'
      rw [hdrop, List.length_drop]
      omega
    · intro d' hpasses
      rw [unprocessed_of_passes h hpos hfits hpasses]
      exact List.drop_eq_nil_of_le (Nat.le_mul_of_pos_right _ (by omega))

theorem oneEvent_some : oneEvent.unprocessed ≠ [] := by decide +kernel

theorem oneEvent_numbered : Numbered oneEvent := ⟨by decide +kernel, by decide +kernel⟩

theorem consumes_oneEvent : Consumes {} oneEvent :=
  (consumes_iff {} oneEvent oneEvent_some oneEvent_numbered).mpr (by decide +kernel)

/-- A size of 0 leaves the batch without an entry, and the cursor is read in front of the first. -/
theorem empty_batch : ¬ ∀ (config : DreamConfig) (d : DreamStore), d.unprocessed ≠ [] →
    Numbered d → Consumes config d := by
  intro h
  have hconsumes := h { maxBatchSize := 0 } oneEvent oneEvent_some oneEvent_numbered
  exact absurd hconsumes.sound.inside.1 (by decide +kernel)

end JiuwenCore.Dream
