import Mathlib.Data.List.Basic

/-!
# Computations that throw

A computation that throws keeps what it has done to the state up to there. `attempt` is a
step that may throw and does nothing else; a silent computation leaves the state alone.
-/

namespace JiuwenCore

abbrev Throwing (ε σ : Type) := ExceptT ε (StateM σ)

namespace Throwing

variable {ε σ α β : Type}

/-- A computation that returns goes on in the state it has left. -/
theorem run_bind_ok {prog : Throwing ε σ α} {k : α → Throwing ε σ β} {s : σ} {x : α}
    (h : (prog.run s).1 = .ok x) : (prog >>= k).run s = (k x).run (prog.run s).2 := by
  obtain ⟨r, s', hr⟩ : ∃ r s', prog.run s = (r, s') := ⟨_, _, rfl⟩
  rw [hr] at h ⊢
  subst h
  rw [ExceptT.run_bind]
  simp only [bind, StateT.bind, hr]

/-- One that throws ends there. -/
theorem run_bind_error {prog : Throwing ε σ α} {k : α → Throwing ε σ β} {s : σ} {e : ε}
    (h : (prog.run s).1 = .error e) : (prog >>= k).run s = (.error e, (prog.run s).2) := by
  obtain ⟨r, s', hr⟩ : ∃ r s', prog.run s = (r, s') := ⟨_, _, rfl⟩
  rw [hr] at h ⊢
  subst h
  rw [ExceptT.run_bind]
  simp only [bind, StateT.bind, hr]
  rfl

def attempt (outcome : Option ε) : Throwing ε σ Unit :=
  match outcome with
  | some e => throw e
  | none => pure ()

def attemptAll : List (Option ε) → Throwing ε σ Unit
  | [] => pure ()
  | outcome :: rest => attempt outcome >>= fun _ => attemptAll rest

/-- The state after an attempt and what follows it. -/
theorem state_attempt_bind (outcome : Option ε) (k : Unit → Throwing ε σ α) (s : σ) :
    ((attempt outcome >>= k).run s).2 = if outcome.isSome then s else ((k ()).run s).2 := by
  cases outcome <;> rfl

theorem state_attemptAll_bind (outcomes : List (Option ε)) (k : Unit → Throwing ε σ α) (s : σ) :
    ((attemptAll outcomes >>= k).run s).2 =
      if outcomes.any (·.isSome) then s else ((k ()).run s).2 := by
  induction outcomes with
  | nil => rfl
  | cons outcome rest ih =>
      rw [attemptAll, bind_assoc, state_attempt_bind, ih, List.any_cons]
      cases outcome with
      | some e => rfl
      | none => rfl

/-! ## Silent computations -/

def Silent (prog : Throwing ε σ α) : Prop := ∀ s, (prog.run s).2 = s

theorem silent_pure (x : α) : Silent (pure x : Throwing ε σ α) := fun _ => rfl

theorem silent_get : Silent (get : Throwing ε σ σ) := fun _ => rfl

theorem silent_attempt (outcome : Option ε) : Silent (attempt outcome : Throwing ε σ Unit) := by
  cases outcome <;> exact fun _ => rfl

theorem Silent.bind {prog : Throwing ε σ α} {k : α → Throwing ε σ β} (h : Silent prog)
    (hk : ∀ x, Silent (k x)) : Silent (prog >>= k) := by
  intro s
  have hs : (prog.run s).2 = s := h s
  cases hr : (prog.run s).1 with
  | ok x => rw [run_bind_ok hr, hs]; exact hk x s
  | error e => rw [run_bind_error hr]; exact hs

end Throwing

end JiuwenCore
