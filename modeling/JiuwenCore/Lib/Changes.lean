import Mathlib.Data.List.Destutter

/-!
# Changes of a reading

The readings of a value one after the other, each kept only if it differs from the one kept
before it. A new reading is kept exactly when it differs from the last one.
-/

namespace JiuwenCore.Changes

variable {α : Type*} [DecidableEq α]

/-- The readings without repetitions. -/
def distinct (readings : List α) : List α := readings.destutter (· ≠ ·)

/-- What came after the first reading. -/
def changes (readings : List α) : List α := (distinct readings).tail

theorem destutter'_concat (first : α) (readings : List α) (last : α) :
    (readings ++ [last]).destutter' (· ≠ ·) first =
      readings.destutter' (· ≠ ·) first ++
        if readings.getLastD first ≠ last then [last] else [] := by
  induction readings generalizing first with
  | nil =>
      by_cases h : first ≠ last
      · rw [List.nil_append, List.destutter'_singleton, List.getLastD_nil, if_pos h, if_pos h]
        rfl
      · rw [List.nil_append, List.destutter'_singleton, List.getLastD_nil, if_neg h, if_neg h]
        rfl
  | cons next rest ih =>
      rw [List.cons_append, List.getLastD_cons]
      by_cases h : first ≠ next
      · rw [List.destutter'_cons_pos _ h, List.destutter'_cons_pos _ h, ih, List.cons_append]
      · rw [List.destutter'_cons_neg _ h, List.destutter'_cons_neg _ h, ih, not_not.mp h]

@[simp] theorem changes_nil : changes ([] : List α) = [] := rfl

@[simp] theorem changes_singleton (reading : α) : changes [reading] = [] := rfl

theorem changes_concat {readings : List α} (h : readings ≠ []) (d last : α) :
    changes (readings ++ [last]) =
      changes readings ++ if readings.getLastD d ≠ last then [last] else [] := by
  cases readings with
  | nil => exact absurd rfl h
  | cons first rest =>
      have hne : rest.destutter' (· ≠ ·) first ≠ [] := by
        intro hnil
        have hmem : first ∈ rest.destutter' (· ≠ ·) first := List.mem_destutter' ..
        rw [hnil] at hmem
        cases hmem
      rw [changes, changes, distinct, distinct, List.cons_append, List.destutter_cons',
        List.destutter_cons', destutter'_concat, List.getLastD_cons, List.tail_append_of_ne_nil hne]

end JiuwenCore.Changes
