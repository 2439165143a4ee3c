import Mathlib.Data.List.Basic

/-!
# Lists that are written out and filtered

A list is written out, each element as a part or several, and what is written is filtered. What
is left is what the elements that stay are written as, just where the filter decides for each
part as the elements are decided for.
-/

namespace JiuwenCore.Filtered

variable {α β : Type*}

/-- Where each element is written as one part. -/
theorem filter_map_eq_iff [DecidableEq α] (f : β → α) (p : α → Bool) (q : β → Bool)
    (l : List β) : (l.map f).filter p = (l.filter q).map f ↔ ∀ x ∈ l, p (f x) = q x := by
  constructor
  · intro h x hx
    have hcount := congrArg (List.count (f x)) h
    cases hp : p (f x) with
    | true =>
        rw [List.count_filter hp] at hcount
        simp only [List.count, List.countP_eq_length_filter, List.filter_map,
          List.length_map] at hcount
        rw [List.filter_comm, eq_comm, List.length_filter_eq_length_iff] at hcount
        exact (hcount x (List.mem_filter.mpr ⟨hx, by simp⟩)).symm
    | false =>
        have hnone : f x ∉ (l.map f).filter p := fun hmem => by
          simp [hp] at hmem
        rw [List.count_eq_zero_of_not_mem hnone] at hcount
        have hnot := List.count_eq_zero.mp hcount.symm
        cases hq : q x with
        | false => rfl
        | true => exact absurd (List.mem_map_of_mem (List.mem_filter.mpr ⟨hx, hq⟩)) hnot
  · intro h
    rw [List.filter_map]
    exact congrArg (List.map f) (List.filter_congr h)

/-- The parts of the elements of a list, each with its element. -/
def parts (f : β → List α) (l : List β) : List (β × α) :=
  l.flatMap fun x => (f x).map (Prod.mk x)

theorem filter_parts (f : β → List α) (q : β → Bool) (l : List β) :
    ((parts f l).filter fun part => q part.1).map Prod.snd = (l.filter q).flatMap f := by
  induction l with
  | nil => rfl
  | cons x rest ih =>
      have hcons : parts f (x :: rest) = (f x).map (Prod.mk x) ++ parts f rest := rfl
      rw [hcons, List.filter_append, List.map_append, ih]
      cases hq : q x with
      | true => simp [hq, List.filter_map, Function.comp_def]
      | false => simp [hq, List.filter_map, Function.comp_def]

/-- Where an element may be written as several parts. -/
theorem filter_flatMap_eq_iff [DecidableEq α] (f : β → List α) (p : α → Bool)
    (q : β → Bool) (l : List β) :
    (l.flatMap f).filter p = (l.filter q).flatMap f ↔ ∀ x ∈ l, ∀ y ∈ f x, p y = q x := by
  have hparts : (parts f l).map Prod.snd = l.flatMap f := by
    simp [parts, List.map_flatMap, Function.comp_def]
  rw [← hparts, ← filter_parts, filter_map_eq_iff]
  constructor
  · intro h x hx y hy
    exact h (x, y) (List.mem_flatMap.mpr ⟨x, hx, List.mem_map_of_mem hy⟩)
  · intro h part hpart
    obtain ⟨x, hx, hpart⟩ := List.mem_flatMap.mp hpart
    obtain ⟨y, hy, rfl⟩ := List.mem_map.mp hpart
    exact h x hx y hy

end JiuwenCore.Filtered
