import JiuwenCore.Config.AgentConfig
import JiuwenCore.Lib.Checked

/-!
# The delay between two attempts

`ComputeBackoffDelayMs` doubles the base delay once for every attempt made, caps it, adds the
jitter and caps the sum again. The delay is an `int` all the way, and its overflow undefined.
-/

namespace JiuwenCore.RetryHelper

open Checked Config

abbrev intMin : Int := -2 ^ 31
abbrev intMax : Int := 2 ^ 31 - 1

/-- `std::uniform_int_distribution`, which answers from a range that is not empty. -/
structure Distribution where
  draw : Int → Int → Int
  mem : ∀ a b, a ≤ b → InRange a b (draw a b)

namespace Distribution

/-- A draw; undefined over an empty range. -/
def draws (rng : Distribution) (a b : Int) : Option Int :=
  if a ≤ b then some (rng.draw a b) else none

def least : Distribution where
  draw := fun a _ => a
  mem := fun _ _ h => ⟨Int.le_refl _, h⟩

def greatest : Distribution where
  draw := fun _ b => b
  mem := fun _ _ h => ⟨h, Int.le_refl _⟩

end Distribution

/-- `ComputeBackoffDelayMs`; `none` where the source is undefined. -/
def computeBackoffDelayMs (rng : Distribution) (attempt : Int32) (policy : RetryPolicy) :
    Option Int := do
  let delay ← scale intMin intMax 2 attempt.toInt.toNat policy.baseDelayMs.toInt
  let delay := min delay policy.maxDelayMs.toInt
  let delay ←
    if policy.withJitter then
      (rng.draws 0 (delay.tdiv 2)).bind fun jitter => checked intMin intMax (delay + jitter)
    else some delay
  return min delay policy.maxDelayMs.toInt

/-! ## Its value -/

/-- The delay before the jitter, as an exact number. -/
def exactDelay (attempt : Int32) (policy : RetryPolicy) : Int :=
  min (policy.baseDelayMs.toInt * 2 ^ attempt.toInt.toNat) policy.maxDelayMs.toInt

variable {attempt : Int32} {policy : RetryPolicy}

theorem exactDelay_nonneg (hbase : 0 ≤ policy.baseDelayMs.toInt)
    (hmax : 0 ≤ policy.maxDelayMs.toInt) : 0 ≤ exactDelay attempt policy :=
  le_min (mul_nonneg hbase (by positivity)) hmax

theorem exactDelay_le : exactDelay attempt policy ≤ policy.maxDelayMs.toInt := min_le_right _ _

theorem doubling_mono {base : Int} (hbase : 0 ≤ base) {j k : Nat} (h : j ≤ k) :
    base * 2 ^ j ≤ base * 2 ^ k := mul_pow_le_mul_pow (by omega) hbase h

theorem exactDelay_mono {earlier : Int32} (hbase : 0 ≤ policy.baseDelayMs.toInt)
    (hle : earlier.toInt ≤ attempt.toInt) :
    exactDelay earlier policy ≤ exactDelay attempt policy := by
  have hpow := doubling_mono hbase (Int.toNat_le_toNat hle)
  unfold exactDelay
  omega

theorem toInt_le_intMax (n : Int32) : n.toInt ≤ intMax := by
  have h := Int32.toInt_lt n
  show n.toInt ≤ 2 ^ 31 - 1
  omega

theorem scale_doubling (hbase : 0 ≤ policy.baseDelayMs.toInt) (k : Nat) :
    scale intMin intMax 2 k policy.baseDelayMs.toInt =
      if policy.baseDelayMs.toInt * 2 ^ k ≤ intMax then
        some (policy.baseDelayMs.toInt * 2 ^ k) else none :=
  scale_eq (by omega) (by decide) k hbase (toInt_le_intMax _)

/-- The doubling comes before the cap, so it must not overflow either where the cap is small. -/
theorem compute_of_overflow (hbase : 0 ≤ policy.baseDelayMs.toInt)
    (hover : intMax < policy.baseDelayMs.toInt * 2 ^ attempt.toInt.toNat) (rng : Distribution) :
    computeBackoffDelayMs rng attempt policy = none := by
  rw [computeBackoffDelayMs, scale_doubling hbase, if_neg (by omega)]
  rfl

theorem compute_without_jitter (hbase : 0 ≤ policy.baseDelayMs.toInt)
    (hfits : policy.baseDelayMs.toInt * 2 ^ attempt.toInt.toNat ≤ intMax)
    (hjitter : policy.withJitter = false) (rng : Distribution) :
    computeBackoffDelayMs rng attempt policy = some (exactDelay attempt policy) := by
  rw [computeBackoffDelayMs, scale_doubling hbase, if_pos hfits, hjitter]
  simp [exactDelay]

/-- With jitter, the sum is taken before the second cap. -/
theorem compute_with_jitter (hbase : 0 ≤ policy.baseDelayMs.toInt)
    (hmax : 0 ≤ policy.maxDelayMs.toInt)
    (hfits : policy.baseDelayMs.toInt * 2 ^ attempt.toInt.toNat ≤ intMax)
    (hjitter : policy.withJitter = true) (rng : Distribution) :
    computeBackoffDelayMs rng attempt policy =
      (checked intMin intMax
        (exactDelay attempt policy + rng.draw 0 (exactDelay attempt policy / 2))).map
        (min · policy.maxDelayMs.toInt) := by
  have hnonneg : 0 ≤ exactDelay attempt policy := exactDelay_nonneg hbase hmax
  rw [computeBackoffDelayMs, scale_doubling hbase, if_pos hfits, hjitter]
  simp only [Option.bind_eq_bind, Option.bind_some, if_true]
  rw [← exactDelay, Int.tdiv_eq_ediv_of_nonneg hnonneg, Distribution.draws, if_pos (by omega)]
  simp [Option.map_eq_bind]

/-! ## When it is right -/

/-- The jitter stays below the largest `int` when it is the greatest it can be. -/
theorem checked_jitter {delay : Int} (hnonneg : 0 ≤ delay) (hfits : delay + delay / 2 ≤ intMax)
    (rng : Distribution) :
    checked intMin intMax (delay + rng.draw 0 (delay / 2)) =
      some (delay + rng.draw 0 (delay / 2)) := by
  have hmem := rng.mem 0 (delay / 2) (by omega)
  have hmin : intMin ≤ 0 := by decide
  exact checked_of_inRange ⟨by have := hmem.1; omega, by have := hmem.2; omega⟩

/-- What is asked of the delay after `attempt` attempts, whatever the jitter. -/
structure Meets (attempt : Int32) (policy : RetryPolicy) : Prop where
  ranged : ∀ rng, ∃ d, computeBackoffDelayMs rng attempt policy = some d ∧
    InRange 0 policy.maxDelayMs.toInt d
  exact : policy.withJitter = false → ∀ rng,
    computeBackoffDelayMs rng attempt policy =
      some (min (policy.baseDelayMs.toInt * 2 ^ attempt.toInt.toNat) policy.maxDelayMs.toInt)
  monotone : policy.withJitter = false → ∀ rng, ∀ earlier : Int32, 0 ≤ earlier.toInt →
    earlier.toInt ≤ attempt.toInt → ∃ e d, computeBackoffDelayMs rng earlier policy = some e ∧
      computeBackoffDelayMs rng attempt policy = some d ∧ e ≤ d

/-- The doubled delay and the delay with the greatest jitter are `int`s. -/
def Fits (attempt : Int32) (policy : RetryPolicy) : Prop :=
  policy.baseDelayMs.toInt * 2 ^ attempt.toInt.toNat ≤ intMax ∧
    (policy.withJitter = true →
      exactDelay attempt policy + exactDelay attempt policy / 2 ≤ intMax)

instance (attempt : Int32) (policy : RetryPolicy) : Decidable (Fits attempt policy) :=
  inferInstanceAs (Decidable (_ ∧ _))

theorem Fits.ranged (hbase : 0 ≤ policy.baseDelayMs.toInt) (hmax : 0 ≤ policy.maxDelayMs.toInt)
    (h : Fits attempt policy) (rng : Distribution) :
    ∃ d, computeBackoffDelayMs rng attempt policy = some d ∧
      InRange 0 policy.maxDelayMs.toInt d := by
  have hnonneg : 0 ≤ exactDelay attempt policy := exactDelay_nonneg hbase hmax
  cases hjitter : policy.withJitter with
  | false => exact ⟨_, compute_without_jitter hbase h.1 hjitter rng, hnonneg, exactDelay_le⟩
  | true =>
      have hdraw := rng.mem 0 (exactDelay attempt policy / 2) (by omega)
      rw [compute_with_jitter hbase hmax h.1 hjitter, checked_jitter hnonneg (h.2 hjitter)]
      refine ⟨_, rfl, le_min ?_ hmax, min_le_right _ _⟩
      have := hdraw.1
      omega

/-- An earlier attempt doubles less often. -/
theorem Fits.earlier (hbase : 0 ≤ policy.baseDelayMs.toInt) (h : Fits attempt policy)
    {earlier : Int32} (hle : earlier.toInt ≤ attempt.toInt) : Fits earlier policy := by
  have hpow := doubling_mono hbase (Int.toNat_le_toNat hle)
  have hexact := exactDelay_mono hbase hle
  refine ⟨by have := h.1; omega, fun hjitter => ?_⟩
  have := h.2 hjitter
  omega

theorem Fits.meets (hbase : 0 ≤ policy.baseDelayMs.toInt) (hmax : 0 ≤ policy.maxDelayMs.toInt)
    (h : Fits attempt policy) : Meets attempt policy where
  ranged := h.ranged hbase hmax
  exact := compute_without_jitter hbase h.1
  monotone := fun hjitter rng _ _ hle =>
    ⟨_, _, compute_without_jitter hbase (h.earlier hbase hle).1 hjitter rng,
      compute_without_jitter hbase h.1 hjitter rng, exactDelay_mono hbase hle⟩

theorem Meets.fits (hbase : 0 ≤ policy.baseDelayMs.toInt) (hmax : 0 ≤ policy.maxDelayMs.toInt)
    (h : Meets attempt policy) : Fits attempt policy := by
  obtain ⟨d, hd, -⟩ := h.ranged .greatest
  have hfits : policy.baseDelayMs.toInt * 2 ^ attempt.toInt.toNat ≤ intMax := by
    by_contra hover
    rw [compute_of_overflow hbase (by omega)] at hd
    simp at hd
  refine ⟨hfits, fun hjitter => ?_⟩
  rw [compute_with_jitter hbase hmax hfits hjitter] at hd
  obtain ⟨sum, hsum, -⟩ := Option.map_eq_some_iff.mp hd
  exact (checked_eq_some_iff.mp hsum).1.2

/-- The delay is what it should be exactly where neither the doubling nor the jitter overflows. -/
theorem meets_iff (attempt : Int32) (policy : RetryPolicy)
    (hbase : 0 ≤ policy.baseDelayMs.toInt) (hmax : 0 ≤ policy.maxDelayMs.toInt) :
    Meets attempt policy ↔ Fits attempt policy :=
  ⟨Meets.fits hbase hmax, Fits.meets hbase hmax⟩

theorem meets_default : Meets 2 {} :=
  (meets_iff 2 {} (by decide) (by decide)).mpr (by decide)

/-- After 23 failures, a delay of 400 milliseconds has been doubled beyond the largest `int`. -/
theorem doubling_overflows :
    ¬ ∀ (attempt : Int32) (policy : RetryPolicy), 0 ≤ attempt.toInt →
      0 ≤ policy.baseDelayMs.toInt → 0 ≤ policy.maxDelayMs.toInt → Meets attempt policy := by
  intro h
  have hmeets := h 23 { withJitter := false } (by decide) (by decide) (by decide)
  exact absurd (hmeets.fits (by decide) (by decide)) (by decide)

/-! ## A run of retries -/

/-- A loop of `maxRetries` retries asks for the delays of the attempts below that number. -/
theorem retries_meet (hbase : 0 ≤ policy.baseDelayMs.toInt) (hmax : 0 ≤ policy.maxDelayMs.toInt)
    (hlast : Fits (policy.maxRetries - 1) policy) {attempt : Int32}
    (hattempt : attempt.toInt ≤ (policy.maxRetries - 1).toInt) : Meets attempt policy :=
  (hlast.earlier hbase hattempt).meets hbase hmax

example {attempt : Int32} (h : attempt.toInt ≤ 1) : Meets attempt {} :=
  retries_meet (by decide) (by decide) (by decide) h

/-- A loop that may retry more than 31 times reaches an overflow, whatever the cap. -/
theorem Fits.attempt_lt (hbase : 0 < policy.baseDelayMs.toInt) (h : Fits attempt policy) :
    attempt.toInt < 31 := by
  by_contra hlong
  have hpow := doubling_mono (Int.le_of_lt hbase) (show 31 ≤ attempt.toInt.toNat by omega)
  have hfits : policy.baseDelayMs.toInt * 2 ^ attempt.toInt.toNat ≤ 2 ^ 31 - 1 := h.1
  omega

end JiuwenCore.RetryHelper
