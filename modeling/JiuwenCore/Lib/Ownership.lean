import JiuwenCore.Lib.Runs

/-!
# Objects that live as long as they are held

A system with objects, each alive as long as somebody holds it, and a lock under which
some of the events happen. A watch records the objects that lose their last holder under
the lock.
-/

namespace JiuwenCore

universe u v w

structure Holdings (σ : Type u) (ε : Type v) (α : Type w) where
  step : σ → ε → Option σ
  held : σ → List α
  locked : ε → Bool

/-- A state, and the objects that were dropped under the lock on the way to it. -/
structure Watched (σ : Type u) (α : Type w) where
  state : σ
  dropped : List α

namespace Holdings

variable {σ : Type u} {ε : Type v} {α : Type w} [DecidableEq α] (sys : Holdings σ ε α)

/-- The objects that lose their last holder between two states. -/
def drops (s s' : σ) : List α := (sys.held s).filter (· ∉ sys.held s')

theorem drops_eq_nil_iff {s s' : σ} :
    sys.drops s s' = [] ↔ ∀ a ∈ sys.held s, a ∈ sys.held s' := by
  simp only [drops, List.filter_eq_nil_iff, decide_eq_true_eq, not_not]

def watch (w : Watched σ α) (e : ε) : Option (Watched σ α) :=
  (sys.step w.state e).map fun s' =>
    { state := s'
      dropped := w.dropped ++ if sys.locked e then sys.drops w.state s' else [] }

theorem watch_spec {w w' : Watched σ α} {e : ε} (h : sys.watch w e = some w') :
    sys.step w.state e = some w'.state ∧
      (w'.dropped = [] ↔ w.dropped = [] ∧
        (sys.locked e = true → sys.drops w.state w'.state = [])) := by
  obtain ⟨s', hstep, rfl⟩ := Option.map_eq_some_iff.mp h
  refine ⟨hstep, ?_⟩
  dsimp only
  rw [List.append_eq_nil_iff]
  refine and_congr_right fun _ => ?_
  cases sys.locked e with
  | true => simp
  | false => simp

/-- Where a condition on the locked steps says exactly that they keep every object, nothing is
dropped under the lock in a run if and only if its steps meet the condition. -/
theorem dropped_eq_nil_iff {ok : σ → ε → Prop}
    (hexact : ∀ s e s', sys.step s e = some s' → sys.locked e = true →
      ((∀ a ∈ sys.held s, a ∈ sys.held s') ↔ ok s e))
    (hfree : ∀ s e, sys.locked e = false → ok s e) {s : σ} {w : Watched σ α}
    (h : Run sys.watch AnyStep ⟨s, []⟩ w) :
    w.dropped = [] ↔ Run sys.watch (fun w e => ok w.state e) ⟨s, []⟩ w := by
  constructor
  · intro hnone
    induction h with
    | start => exact .start
    | @next t t' e _ _ hnext ih =>
        obtain ⟨hstep, hdropped⟩ := sys.watch_spec hnext
        obtain ⟨hbefore, hkept⟩ := hdropped.mp hnone
        refine .next (ih hbefore) ?_ hnext
        cases hlocked : sys.locked e with
        | true => exact (hexact _ e _ hstep hlocked).mp (sys.drops_eq_nil_iff.mp (hkept hlocked))
        | false => exact hfree _ e hlocked
  · intro hrun
    refine hrun.invariant (motive := fun w => w.dropped = []) rfl ?_
    intro w e w' hbefore hok hnext
    obtain ⟨hstep, hdropped⟩ := sys.watch_spec hnext
    refine hdropped.mpr ⟨hbefore, fun hlocked => ?_⟩
    exact sys.drops_eq_nil_iff.mpr ((hexact _ e _ hstep hlocked).mpr hok)

end Holdings

end JiuwenCore
