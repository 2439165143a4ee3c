import Mathlib.Data.List.Basic

/-!
# Patterns of single symbols and runs

A pattern is a sequence of tests of one symbol and of runs of symbols that all meet one. What
it matches is given as a relation, and decided by trying every length of each run.
-/

namespace JiuwenCore.Pattern

variable {σ : Type*}

inductive Atom (σ : Type*) where
  | one (p : σ → Bool)
  | many (p : σ → Bool)

/-- A list of symbols is made up as the pattern says. -/
inductive Matches : List (Atom σ) → List σ → Prop
  | nil : Matches [] []
  | one {p : σ → Bool} {c : σ} {atoms : List (Atom σ)} {s : List σ} : p c = true →
      Matches atoms s → Matches (.one p :: atoms) (c :: s)
  | many {p : σ → Bool} {run : List σ} {atoms : List (Atom σ)} {s : List σ} :
      (∀ c ∈ run, p c = true) → Matches atoms s → Matches (.many p :: atoms) (run ++ s)

/-- Some run at the front meets the test, and what follows it the continuation. -/
def acceptsRun (p : σ → Bool) (rest : List σ → Bool) : List σ → Bool
  | [] => rest []
  | c :: s => rest (c :: s) || (p c && acceptsRun p rest s)

def accepts : List (Atom σ) → List σ → Bool
  | [], s => s.isEmpty
  | .one _ :: _, [] => false
  | .one p :: atoms, c :: s => p c && accepts atoms s
  | .many p :: atoms, s => acceptsRun p (accepts atoms) s

theorem acceptsRun_iff {p : σ → Bool} {rest : List σ → Bool} {s : List σ} :
    acceptsRun p rest s = true ↔
      ∃ run after, s = run ++ after ∧ (∀ c ∈ run, p c = true) ∧ rest after = true := by
  constructor
  · intro h
    induction s with
    | nil => exact ⟨[], [], rfl, by simp, h⟩
    | cons c s ih =>
        rw [acceptsRun, Bool.or_eq_true, Bool.and_eq_true] at h
        rcases h with hhere | ⟨hc, hmore⟩
        · exact ⟨[], c :: s, rfl, by simp, hhere⟩
        · obtain ⟨run, after, rfl, hrun, hafter⟩ := ih hmore
          exact ⟨c :: run, after, rfl, List.forall_mem_cons.mpr ⟨hc, hrun⟩, hafter⟩
  · rintro ⟨run, after, rfl, hrun, hafter⟩
    induction run with
    | nil =>
        cases after with
        | nil => exact hafter
        | cons c after => rw [List.nil_append, acceptsRun, hafter, Bool.true_or]
    | cons c run ih =>
        obtain ⟨hc, hrest⟩ := List.forall_mem_cons.mp hrun
        rw [List.cons_append, acceptsRun, hc, ih hrest, Bool.true_and, Bool.or_true]

/-- The trial decides the relation. -/
theorem accepts_iff {atoms : List (Atom σ)} {s : List σ} :
    accepts atoms s = true ↔ Matches atoms s := by
  induction atoms generalizing s with
  | nil =>
      rw [accepts, List.isEmpty_iff]
      constructor
      · rintro rfl
        exact .nil
      · intro h
        cases h
        rfl
  | cons atom atoms ih =>
      cases atom with
      | one p =>
          cases s with
          | nil =>
              constructor
              · intro h
                cases h
              · intro h
                cases h
          | cons c s =>
              rw [accepts, Bool.and_eq_true, ih]
              constructor
              · intro h
                exact .one h.1 h.2
              · intro h
                cases h with
                | one hc hrest => exact ⟨hc, hrest⟩
      | many p =>
          rw [accepts, acceptsRun_iff]
          constructor
          · rintro ⟨run, after, rfl, hrun, hafter⟩
            exact .many hrun (ih.mp hafter)
          · intro h
            cases h with
            | many hrun hrest => exact ⟨_, _, rfl, hrun, ih.mpr hrest⟩

end JiuwenCore.Pattern
