/-!
# Methods under a mutex

What one thread does over a state that a mutex protects. The mutex is not recursive: a thread
that asks for it while it holds it does not go on.
-/

namespace JiuwenCore

/-- How a computation comes to its end. -/
inductive Ending (σ α : Type) where
  | returned (value : α) (state : σ)
  | threw (state : σ)
  /-- It asks for the mutex it holds. -/
  | relocked
  /-- The language leaves open what happens. -/
  | undefined

/-- A computation, given whether its thread holds the mutex. -/
def Locked (σ α : Type) : Type := Bool → σ → Ending σ α

namespace Locked

variable {σ α β : Type}

def bind (m : Locked σ α) (k : α → Locked σ β) : Locked σ β := fun held s =>
  match m held s with
  | .returned x s' => k x held s'
  | .threw s' => .threw s'
  | .relocked => .relocked
  | .undefined => .undefined

instance : Monad (Locked σ) where
  pure := fun x _ s => .returned x s
  bind := bind

/-- A reader of the state that does not ask for the mutex. -/
def reads (f : σ → α) : Locked σ α := fun _ s => .returned (f s) s

def undefined : Locked σ α := fun _ _ => .undefined

/-- `std::lock_guard` around a computation. -/
def guarded (m : Locked σ α) : Locked σ α := fun held s => if held then .relocked else m true s

theorem bind_of_returned {m : Locked σ α} {held : Bool} {s s' : σ} {x : α}
    (h : m held s = .returned x s') (k : α → Locked σ β) : (m >>= k) held s = k x held s' := by
  show bind m k held s = _
  rw [bind, h]

theorem bind_of_relocked {m : Locked σ α} {held : Bool} {s : σ} (h : m held s = .relocked)
    (k : α → Locked σ β) : (m >>= k) held s = .relocked := by
  show bind m k held s = _
  rw [bind, h]

@[simp] theorem reads_bind (f : σ → α) (k : α → Locked σ β) (held : Bool) (s : σ) :
    (reads f >>= k) held s = k (f s) held s :=
  bind_of_returned (m := reads f) rfl k

@[simp] theorem guarded_free (m : Locked σ α) (s : σ) : guarded m false s = m true s := rfl

@[simp] theorem guarded_held (m : Locked σ α) (s : σ) : guarded m true s = .relocked := rfl

/-- A guarded method that begins with a guarded one does not come back, whoever calls it. -/
theorem guarded_guarded_bind (m : Locked σ α) (k : α → Locked σ β) (held : Bool) (s : σ) :
    guarded (guarded m >>= k) held s = .relocked := by
  cases held with
  | false => exact bind_of_relocked (guarded_held m s) k
  | true => rfl

end Locked

end JiuwenCore
