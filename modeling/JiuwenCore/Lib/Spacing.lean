import Mathlib.Data.List.Pairwise
import Mathlib.Algebra.Order.Ring.Int
import Mathlib.Tactic.Ring

/-!
# Times that keep a distance

Times that lie at least a gap apart are few in every window: one more than the gaps that go into
it.
-/

namespace JiuwenCore.Spacing

def Spaced (gap : Int) (times : List Int) : Prop :=
  times.Pairwise fun t later => t + gap ≤ later

variable {gap : Int}

theorem Spaced.concat {times : List Int} (h : Spaced gap times) {last : Int}
    (hlast : ∀ t ∈ times, t + gap ≤ last) : Spaced gap (times ++ [last]) := by
  refine List.pairwise_append.mpr ⟨h, List.pairwise_singleton _ _, ?_⟩
  intro t ht later hlater
  rw [List.mem_singleton.mp hlater]
  exact hlast t ht

/-- Where all times are in a window, the gaps between them go into it. -/
theorem Spaced.length_lt {times : List Int} (h : Spaced gap times) {start stop : Int}
    (hin : ∀ t ∈ times, start ≤ t ∧ t < stop) {n : Nat} (hlength : times.length = n + 1) :
    gap * n < stop - start := by
  induction times generalizing start n with
  | nil => cases hlength
  | cons t times ih =>
      obtain ⟨hfirst, hrest⟩ := List.forall_mem_cons.mp hin
      cases n with
      | zero =>
          rw [Nat.cast_zero, mul_zero]
          omega
      | succ n =>
          have hlater : ∀ u ∈ times, t + gap ≤ u ∧ u < stop := fun u hu =>
            ⟨List.rel_of_pairwise_cons h hu, (hrest u hu).2⟩
          have hless := ih (List.Pairwise.of_cons h) hlater (Nat.succ.inj hlength)
          have hsum : gap * ((n + 1 : Nat) : Int) = gap * n + gap := by
            rw [Nat.cast_succ]
            ring
          omega

theorem Spaced.count_lt {times : List Int} (h : Spaced gap times) (start len : Int) {n : Nat}
    (hcount : (times.filter fun t => start ≤ t ∧ t < start + len).length = n + 1) :
    gap * n < len := by
  have hfiltered : Spaced gap (times.filter fun t => start ≤ t ∧ t < start + len) :=
    List.Pairwise.filter _ h
  have hless := hfiltered.length_lt (fun t ht => of_decide_eq_true (List.mem_filter.mp ht).2)
    hcount
  omega

end JiuwenCore.Spacing
