import Mathlib.Data.List.Basic

/-!
# Runs

A system is a partial step function: in a state, an event either cannot happen or leads
to the next state. A run may be restricted to steps that meet a condition on the state
before them and the event.
-/

namespace JiuwenCore

variable {σ ε : Type*} (step : σ → ε → Option σ)

/-- The states reached from `s` by steps that meet `ok`. -/
inductive Run (ok : σ → ε → Prop) (s : σ) : σ → Prop
  | start : Run ok s s
  | next {t t' : σ} {e : ε} : Run ok s t → ok t e → step t e = some t' → Run ok s t'

/-- Steps of any kind. -/
def AnyStep (_ : σ) (_ : ε) : Prop := True

instance (s : σ) (e : ε) : Decidable (AnyStep s e) := inferInstanceAs (Decidable True)

variable {step}

/-- What holds at the start and is kept by every step of the kind holds throughout. -/
theorem Run.invariant {ok : σ → ε → Prop} {s t : σ} (h : Run step ok s t) {motive : σ → Prop}
    (hstart : motive s)
    (hstep : ∀ s e s', motive s → ok s e → step s e = some s' → motive s') : motive t := by
  induction h with
  | start => exact hstart
  | next _ hok hnext ih => exact hstep _ _ _ ih hok hnext

theorem Run.mono {ok ok' : σ → ε → Prop} {s t : σ} (h : Run step ok s t)
    (hok : ∀ s e, ok s e → ok' s e) : Run step ok' s t := by
  induction h with
  | start => exact .start
  | next _ hmet hnext ih => exact .next ih (hok _ _ hmet) hnext

theorem Run.trans {ok : σ → ε → Prop} {s t u : σ} (h : Run step ok s t) (h' : Run step ok t u) :
    Run step ok s u := by
  induction h' with
  | start => exact h
  | next _ hok hnext ih => exact .next ih hok hnext

/-- A run of a system whose steps are runs of another one. -/
theorem Run.simulate {τ δ : Type*} {step' : τ → δ → Option τ} {ok : σ → ε → Prop}
    {ok' : τ → δ → Prop} {s t : σ} (h : Run step ok s t) (abs : σ → τ) {motive : σ → Prop}
    (hstart : motive s)
    (hstep : ∀ s e s', motive s → ok s e → step s e = some s' →
      motive s' ∧ Run step' ok' (abs s) (abs s')) : motive t ∧ Run step' ok' (abs s) (abs t) := by
  induction h with
  | start => exact ⟨hstart, .start⟩
  | next _ hok hnext ih =>
      have hlast := hstep _ _ _ ih.1 hok hnext
      exact ⟨hlast.1, ih.2.trans hlast.2⟩

/-! ## Runs that are computed -/

section

variable (step) (ok : σ → ε → Prop) [∀ s e, Decidable (ok s e)]

/-- The state after a list of events, if all of them can happen and meet the condition. -/
def runEvents (s : σ) : List ε → Option σ
  | [] => some s
  | e :: rest => if ok s e then (step s e).bind fun s => runEvents s rest else none

variable {step ok} in
theorem runEvents_run {s t : σ} {events : List ε} (h : runEvents step ok s events = some t) :
    Run step ok s t := by
  induction events generalizing s with
  | nil =>
      cases h
      exact .start
  | cons e rest ih =>
      obtain ⟨hok, h⟩ := Option.ite_none_right_eq_some.mp h
      obtain ⟨s', hstep, hrest⟩ := Option.bind_eq_some_iff.mp h
      have hfirst : Run step ok s s' := .next .start hok hstep
      exact hfirst.trans (ih hrest)

/-- What a test finds after some events holds in a state of a run. -/
theorem exists_run_of_any (s : σ) (events : List ε) {p : σ → Prop} [DecidablePred p]
    (h : (runEvents step ok s events).any (fun t => decide (p t)) = true) :
    ∃ t, Run step ok s t ∧ p t := by
  obtain ⟨t, ht, hp⟩ := (Option.any_eq_true _ _).mp h
  exact ⟨t, runEvents_run ht, of_decide_eq_true hp⟩

/-- The same for a state on the way and one at the end. -/
theorem exists_runs_of_any (s : σ) (events later : List ε) {p : σ → σ → Prop}
    [∀ t u, Decidable (p t u)]
    (h : ((runEvents step ok s events).any fun t =>
      (runEvents step ok t later).any fun u => decide (p t u)) = true) :
    ∃ t u, Run step ok s t ∧ Run step ok t u ∧ p t u := by
  obtain ⟨t, ht, hlater⟩ := (Option.any_eq_true _ _).mp h
  obtain ⟨u, hu, hp⟩ := (Option.any_eq_true _ _).mp hlater
  exact ⟨t, u, runEvents_run ht, runEvents_run hu, of_decide_eq_true hp⟩

end

end JiuwenCore
