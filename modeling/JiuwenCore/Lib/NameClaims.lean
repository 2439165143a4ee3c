import Mathlib.Data.Set.Basic

/-!
# Names that are taken and given back

Owners take names in one map and give them back by erasing them, without a record of what a name
was bound to before. As long as an owner takes only names that are free, every entry stays what
its owner or the start has made it, and when all are given back the map is the one of the start.
A name that was not free is lost with the first owner that gives it back.
-/

namespace JiuwenCore.NameClaims

universe u v w

variable {ι : Type u} {κ : Type v} {ν : Type w}

/-- The names with an owner are bound to it and were not bound at the start; the others are as
they were. -/
structure Holds (base : κ → Option ν) (owner : ν → Option ι) (owns : ι → Set κ)
    (current : κ → Option ν) : Prop where
  own : ∀ i, ∀ k ∈ owns i, ∃ v, current k = some v ∧ owner v = some i
  rest : ∀ k, (∀ i, k ∉ owns i) → current k = base k
  outside : ∀ i, ∀ k ∈ owns i, base k = none

variable {base current current' : κ → Option ν} {owner : ν → Option ι} {owns owns' : ι → Set κ}
  {i : ι}

/-- The entries of the start are never overwritten. -/
theorem Holds.start (h : Holds base owner owns current) {k : κ} {v : ν} (hk : base k = some v) :
    current k = some v := by
  rw [← hk]
  apply h.rest
  intro i hmem
  have hnone := h.outside i k hmem
  rw [hk] at hnone
  cases hnone

/-- An owner without names takes free ones. -/
theorem Holds.install (h : Holds base owner owns current) (hidle : owns i = ∅)
    (hothers : ∀ j, j ≠ i → owns' j = owns j)
    (hfree : ∀ k ∈ owns' i, base k = none ∧ ∀ j, k ∉ owns j)
    (hnew : ∀ k ∈ owns' i, ∃ v, current' k = some v ∧ owner v = some i)
    (hsame : ∀ k, k ∉ owns' i → current' k = current k) :
    Holds base owner owns' current' where
  own j k hk := by
    by_cases hj : j = i
    · rw [hj] at hk ⊢
      exact hnew k hk
    · rw [hothers j hj] at hk
      have hold : k ∉ owns' i := fun hmem => (hfree k hmem).2 j hk
      rw [hsame k hold]
      exact h.own j k hk
  rest k hk := by
    rw [hsame k (hk i)]
    apply h.rest
    intro j
    by_cases hj : j = i
    · rw [hj, hidle]
      exact Set.notMem_empty k
    · rw [← hothers j hj]
      exact hk j
  outside j k hk := by
    by_cases hj : j = i
    · rw [hj] at hk
      exact (hfree k hk).1
    · rw [hothers j hj] at hk
      exact h.outside j k hk

/-- An owner gives its names back. -/
theorem Holds.uninstall (h : Holds base owner owns current) (hnone : owns' i = ∅)
    (hothers : ∀ j, j ≠ i → owns' j = owns j)
    (herased : ∀ k ∈ owns i, current' k = none)
    (hsame : ∀ k, k ∉ owns i → current' k = current k) :
    Holds base owner owns' current' where
  own j k hk := by
    by_cases hj : j = i
    · rw [hj, hnone] at hk
      exact absurd hk (Set.notMem_empty k)
    · rw [hothers j hj] at hk
      have hapart : k ∉ owns i := by
        intro hmem
        obtain ⟨v, hv, howner⟩ := h.own j k hk
        obtain ⟨v', hv', howner'⟩ := h.own i k hmem
        rw [hv] at hv'
        cases hv'
        rw [howner] at howner'
        exact hj (Option.some.inj howner')
      rw [hsame k hapart]
      exact h.own j k hk
  rest k hk := by
    by_cases hmem : k ∈ owns i
    · rw [herased k hmem, h.outside i k hmem]
    · rw [hsame k hmem]
      apply h.rest
      intro j
      by_cases hj : j = i
      · rw [hj]
        exact hmem
      · rw [← hothers j hj]
        exact hk j
  outside j k hk := by
    by_cases hj : j = i
    · rw [hj, hnone] at hk
      exact absurd hk (Set.notMem_empty k)
    · rw [hothers j hj] at hk
      exact h.outside j k hk

/-- A name that is bound to nothing was bound to nothing, and has no owner. -/
theorem Holds.free_of_none (h : Holds base owner owns current) {k : κ} (hk : current k = none) :
    base k = none ∧ ∀ i, k ∉ owns i := by
  constructor
  · cases hbase : base k with
    | none => rfl
    | some v =>
        rw [h.start hbase] at hk
        cases hk
  · intro i hmem
    obtain ⟨v, hv, _⟩ := h.own i k hmem
    rw [hk] at hv
    cases hv

end JiuwenCore.NameClaims
