import Mathlib.Algebra.Order.Ring.Int
import Mathlib.Data.List.Basic

/-!
# Arithmetic that must stay in a range

A result outside the range `lo .. hi` of a machine integer is undefined. Sums and repeated
products of numbers that are not negative stay inside as soon as their last value does.
-/

namespace JiuwenCore.Checked

variable {lo hi : Int}

def InRange (lo hi n : Int) : Prop := lo ≤ n ∧ n ≤ hi

instance (lo hi n : Int) : Decidable (InRange lo hi n) := inferInstanceAs (Decidable (_ ∧ _))

def checked (lo hi n : Int) : Option Int := if InRange lo hi n then some n else none

theorem checked_of_inRange {n : Int} (h : InRange lo hi n) : checked lo hi n = some n := if_pos h

theorem checked_eq_none_iff {n : Int} : checked lo hi n = none ↔ ¬ InRange lo hi n := by
  unfold checked
  split <;> simp_all

theorem checked_eq_some_iff {n m : Int} : checked lo hi n = some m ↔ InRange lo hi n ∧ m = n := by
  unfold checked
  split <;> simp_all [eq_comm]

/-! ## Repeated products -/

/-- `n` after `k` multiplications by `factor`, each of them checked. -/
def scale (lo hi factor : Int) : Nat → Int → Option Int
  | 0, n => some n
  | k + 1, n => (checked lo hi (n * factor)).bind (scale lo hi factor k)

theorem le_mul_pow {factor n : Int} (hf : 1 ≤ factor) (hn : 0 ≤ n) (k : Nat) :
    n ≤ n * factor ^ k :=
  le_mul_of_one_le_right hn (one_le_pow₀ hf)

theorem mul_pow_le_mul_pow {factor n : Int} (hf : 1 ≤ factor) (hn : 0 ≤ n) {j k : Nat}
    (h : j ≤ k) : n * factor ^ j ≤ n * factor ^ k :=
  mul_le_mul_of_nonneg_left (pow_le_pow_right₀ hf h) hn

/-- The products grow, so that the last one decides. -/
theorem scale_eq {factor : Int} (hf : 1 ≤ factor) (hlo : lo ≤ 0) (k : Nat) {n : Int} (hn : 0 ≤ n)
    (hmax : n ≤ hi) :
    scale lo hi factor k n = if n * factor ^ k ≤ hi then some (n * factor ^ k) else none := by
  induction k generalizing n with
  | zero => simp [scale, hmax]
  | succ k ih =>
      have hnext : 0 ≤ n * factor := mul_nonneg hn (by omega)
      have hpow : n * factor * factor ^ k = n * factor ^ (k + 1) := by rw [pow_succ', mul_assoc]
      by_cases hfits : n * factor ≤ hi
      · rw [scale, checked_of_inRange ⟨by omega, hfits⟩, Option.bind_some, ih hnext hfits, hpow]
      · have hlast : n * factor ≤ n * factor ^ (k + 1) := hpow ▸ le_mul_pow hf hnext k
        rw [scale, checked_eq_none_iff.mpr fun h => hfits h.2, Option.bind_none,
          if_neg (by omega)]

end JiuwenCore.Checked
