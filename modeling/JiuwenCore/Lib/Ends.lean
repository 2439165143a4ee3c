import Mathlib.Logic.Basic

/-!
# Programs that may end early

A program returns a value or ends with an exception that carries a state. `Ends`
holds when both ways of ending meet their condition, so one lemma about a part of
a program serves its callers on either way.
-/

namespace JiuwenCore

universe u v

variable {ε : Type u} {α : Type v}

def Ends (r : Except ε α) (post : α → Prop) (exc : ε → Prop) : Prop :=
  match r with
  | .ok a => post a
  | .error e => exc e

@[simp] theorem ends_ok {a : α} {post : α → Prop} {exc : ε → Prop} :
    Ends (.ok a) post exc ↔ post a := Iff.rfl

@[simp] theorem ends_error {e : ε} {post : α → Prop} {exc : ε → Prop} :
    Ends (.error e) post exc ↔ exc e := Iff.rfl

theorem Ends.mono {r : Except ε α} {post post' : α → Prop} {exc exc' : ε → Prop}
    (h : Ends r post exc) (hpost : ∀ a, post a → post' a) (hexc : ∀ e, exc e → exc' e) :
    Ends r post' exc' := by
  cases r with
  | ok a => exact hpost a h
  | error e => exact hexc e h

/-- The rule for `>>=`: what the rest of the program needs holds after the first part. -/
theorem Ends.bind {α β : Type v} {r : Except ε α} {f : α → Except ε β} {mid : α → Prop}
    {post : β → Prop} {exc : ε → Prop} (h : Ends r mid exc)
    (hrest : ∀ a, mid a → Ends (f a) post exc) : Ends (r >>= f) post exc := by
  cases r with
  | ok a => exact hrest a h
  | error e => exact h

/-- The first part of a program of which only the rest matters. -/
theorem Ends.bind_of_forall {α β : Type v} {r : Except ε α} {f : α → Except ε β}
    {post : β → Prop} {exc : ε → Prop} (hexc : ∀ e, exc e)
    (hrest : ∀ a, Ends (f a) post exc) : Ends (r >>= f) post exc := by
  cases r with
  | ok a => exact hrest a
  | error e => exact hexc e

theorem Ends.ok_of {r : Except ε α} {v : α} (h : Ends r (· = v) fun _ => False) : r = .ok v := by
  cases r with
  | ok a => exact congrArg Except.ok h
  | error e => exact h.elim

/-- A loop of which every turn may end early. -/
theorem Ends.foldlM {α : Type*} {β : Type v} {step : β → α → Except ε β} {inv : β → Prop}
    {exc : ε → Prop} (hstep : ∀ b a, inv b → Ends (step b a) inv exc) (l : List α) {b : β}
    (h : inv b) : Ends (l.foldlM step b) inv exc := by
  induction l generalizing b with
  | nil => exact h
  | cons a l ih => exact (hstep b a h).bind fun _ hnext => ih hnext

end JiuwenCore
