import Mathlib.Algebra.BigOperators.Group.List.Basic
import Mathlib.Algebra.Order.BigOperators.Group.List
import Mathlib.Algebra.Order.Ring.Nat

/-!
# The prefix that fits

Elements with sizes are taken from the front until their number or the sum of their sizes
would go beyond a bound. What is taken is the longest prefix within both bounds, and taking
from one list and then from the next is taking from both.
-/

namespace JiuwenCore.Fitting

variable {α : Type*} (limit budget : Nat) (size : α → Nat)

/-- Within both bounds. -/
def Fits (p : List α) : Prop := p.length ≤ limit ∧ (p.map size).sum ≤ budget

/-- The longest prefix of a list that is within the bounds. -/
structure Longest (p l : List α) : Prop where
  isPrefix : p <+: l
  fits : Fits limit budget size p
  longest : ∀ q, q <+: l → Fits limit budget size q → q <+: p

/-- Takes elements behind those of `taken`, and says whether one was left. -/
@[grind =] def fill (taken : List α) : List α → List α × Bool
  | [] => (taken, false)
  | x :: rest =>
      if limit ≤ taken.length ∨ budget < (taken.map size).sum + size x then (taken, true)
      else fill (taken ++ [x]) rest

variable {limit budget size}

theorem Fits.of_prefix {p q : List α} (h : Fits limit budget size q) (hpq : p <+: q) :
    Fits limit budget size p := by
  obtain ⟨rest, rfl⟩ := hpq
  rw [Fits, List.length_append, List.map_append, List.sum_append] at h
  exact ⟨by omega, by omega⟩

theorem fits_snoc {p : List α} {x : α} :
    Fits limit budget size (p ++ [x]) ↔
      ¬ (limit ≤ p.length ∨ budget < (p.map size).sum + size x) := by
  rw [Fits, List.length_append, List.map_append, List.sum_append]
  simp only [List.length_singleton, List.map_cons, List.map_nil, List.sum_singleton]
  omega

theorem fill_append (taken xs ys : List α) :
    fill limit budget size taken (xs ++ ys) =
      if (fill limit budget size taken xs).2 then fill limit budget size taken xs
      else fill limit budget size (fill limit budget size taken xs).1 ys := by
  induction xs generalizing taken with
  | nil => rfl
  | cons x xs ih =>
      rw [List.cons_append, fill, fill]
      split
      · rfl
      · exact ih (taken ++ [x])

/-- What is taken, when what there already is fits. -/
theorem fill_longest {taken : List α} (h : Fits limit budget size taken) (xs : List α) :
    Longest limit budget size (fill limit budget size taken xs).1 (taken ++ xs) := by
  induction xs generalizing taken with
  | nil =>
      rw [List.append_nil]
      exact ⟨List.prefix_rfl, h, fun q hq _ => hq⟩
  | cons x xs ih =>
      rw [fill]
      split
      · rename_i hfull
        refine ⟨List.prefix_append _ _, h, fun q hq hfits => ?_⟩
        have hboth := List.prefix_or_prefix_of_prefix hq (List.prefix_append taken (x :: xs))
        rcases hboth with hq' | hq'
        · exact hq'
        · -- a longer prefix would have room for `x`
          obtain ⟨more, rfl⟩ := hq'
          cases more with
          | nil => simp
          | cons y more =>
              have hy : y = x := by
                obtain ⟨rest, hrest⟩ := hq
                rw [List.append_assoc, List.append_cancel_left_eq] at hrest
                exact (List.cons.inj hrest).1
              rw [hy, List.append_cons] at hfits
              exact absurd hfull (fits_snoc.mp (hfits.of_prefix (List.prefix_append _ _)))
      · rename_i hroom
        have hnext := ih (fits_snoc.mpr hroom)
        rwa [List.append_assoc, List.singleton_append] at hnext

variable (limit budget size) in
/-- The same from nothing. -/
theorem fill_nil_longest (xs : List α) :
    Longest limit budget size (fill limit budget size [] xs).1 xs :=
  fill_longest ⟨Nat.zero_le _, Nat.zero_le _⟩ xs

variable (limit budget size) in
theorem fill_all_iff (taken xs : List α) :
    (fill limit budget size taken xs).2 = false ↔
      (fill limit budget size taken xs).1 = taken ++ xs := by
  induction xs generalizing taken with
  | nil => simp [fill]
  | cons x xs ih =>
      rw [fill]
      split
      · simp
      · rw [ih, List.append_assoc, List.singleton_append]

/-- Nothing is taken exactly when the first element alone does not fit. -/
theorem fill_nil_eq_nil_iff (hlimit : 0 < limit) (xs : List α) :
    (fill limit budget size [] xs).1 = [] ↔ ∀ x ∈ xs.head?, budget < size x := by
  cases xs with
  | nil => simp [fill]
  | cons x rest =>
      have hone : Fits limit budget size [x] ↔ size x ≤ budget := by
        simp only [Fits, List.length_singleton, List.map_cons, List.map_nil, List.sum_singleton]
        omega
      have hlongest := fill_nil_longest limit budget size (x :: rest)
      simp only [List.head?_cons, Option.mem_some_iff, forall_eq']
      constructor
      · intro hnil
        by_contra hsmall
        have htaken := hlongest.longest [x] (List.prefix_append _ _) (hone.mpr (not_lt.mp hsmall))
        rw [hnil] at htaken
        cases List.prefix_nil.mp htaken
      · intro hlarge
        by_contra hne
        obtain ⟨y, taken, heq⟩ := List.exists_cons_of_ne_nil hne
        have hprefix := hlongest.isPrefix
        rw [heq, List.cons_prefix_cons] at hprefix
        have hfits := hlongest.fits.of_prefix (p := [x]) (by simp [heq, hprefix.1])
        exact absurd (hone.mp hfits) (not_le.mpr hlarge)

end JiuwenCore.Fitting
