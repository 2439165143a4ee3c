import JiuwenCore.Lib.Runs
import JiuwenCore.Lib.Spacing
import JiuwenCore.Text
import Mathlib.Logic.Function.Basic

/-!
# The cooldown of the search engines

Before a request to a search engine `CooldownBefore` waits until the last one is long enough ago.
Searches run side by side; each engine has a lock of its own, which is held while its caller
sleeps. Times are in nanoseconds.
-/

namespace JiuwenCore.Tools.WebSearchTool

/-- The engines that have a cooldown. -/
inductive Cooldown where
  | ddg
  | bing
  | wiki
  | baidu
  | sogou
  deriving DecidableEq, Repr

namespace Cooldown

def minIntervalSec : Cooldown → Int
  | ddg => 8
  | bing => 15
  | wiki => 1
  | baidu => 5
  | sogou => 8

/-- `CooldownFor`; any other engine has the loose interval. -/
def cooldownFor (engine : Str) : Cooldown :=
  if engine = lit "duckduckgo" then ddg
  else if engine = lit "bing" then bing
  else if engine = lit "baidu" then baidu
  else if engine = lit "sogou" then sogou
  else wiki

def second : Int := 10 ^ 9

/-- The caller that holds the lock. -/
structure Holder where
  caller : Nat
  /-- When it has looked at the clock. -/
  entered : Int
  /-- Until then it sleeps at least. -/
  wakes : Int
  deriving DecidableEq, Repr

/-- An engine, with the times at which its callers have gone on to their requests. -/
structure Engine where
  lastCall : Int := 0
  holder : Option Holder := none
  passes : List Int := []
  deriving DecidableEq, Repr

structure System where
  clock : Int
  engines : Cooldown → Engine := fun _ => {}

inductive Event where
  | tick (now : Int)
  /-- A caller takes the lock and looks how long the last call is ago. -/
  | enter (caller : Nat) (engine : Str)
  /-- It has slept. -/
  | leave (caller : Nat) (engine : Str)

/-- When a caller wakes that looks at the clock now. -/
def wakesAt (minIntervalSec lastCall now : Int) : Int :=
  let elapsed := (now - lastCall).tdiv second
  if elapsed < minIntervalSec then now + (minIntervalSec - elapsed) * 1000 * 10 ^ 6 else now

/-- A caller takes the lock. -/
def Engine.take (c : Cooldown) (caller : Nat) (now : Int) (e : Engine) : Engine :=
  let holder : Holder :=
    { caller := caller, entered := now, wakes := wakesAt c.minIntervalSec e.lastCall now }
  { e with holder := some holder }

/-- Its caller goes on. -/
def Engine.pass (now : Int) (e : Engine) : Engine :=
  { lastCall := now, holder := none, passes := e.passes ++ [now] }

def step (s : System) : Event → Option System
  | .tick now => if s.clock ≤ now then some { s with clock := now } else none
  | .enter caller engine =>
      let c := cooldownFor engine
      if (s.engines c).holder = none then
        let taken := (s.engines c).take c caller s.clock
        some { s with engines := Function.update s.engines c taken }
      else none
  | .leave caller engine =>
      let c := cooldownFor engine
      match (s.engines c).holder with
      | some holder =>
          if holder.caller = caller ∧ holder.wakes ≤ s.clock then
            let passed := (s.engines c).pass s.clock
            some { s with engines := Function.update s.engines c passed }
          else none
      | none => none

/-! ## What holds of an engine -/

/-- A caller sleeps until the interval is over, and less than a second longer. -/
def Holder.Fair (holder : Holder) (lastCall interval : Int) : Prop :=
  lastCall + interval ≤ holder.wakes ∧
    (holder.wakes = holder.entered ∨ holder.wakes < lastCall + interval + second)

structure Sound (c : Cooldown) (e : Engine) (clock : Int) : Prop where
  last : e.lastCall ≤ clock
  passed : ∀ t ∈ e.passes, t ≤ e.lastCall
  spaced : Spacing.Spaced (c.minIntervalSec * second) e.passes
  fair : ∀ holder ∈ e.holder, holder.Fair e.lastCall (c.minIntervalSec * second)

theorem wakesAt_fair {caller : Nat} {interval lastCall now : Int} (h : lastCall ≤ now) :
    Holder.Fair { caller := caller, entered := now, wakes := wakesAt interval lastCall now }
      lastCall (interval * second) := by
  have hdiv : (now - lastCall).tdiv second = (now - lastCall) / second :=
    Int.tdiv_eq_ediv_of_nonneg (by omega)
  have hmod := Int.emod_add_mul_ediv (now - lastCall) second
  have hlow := Int.emod_nonneg (now - lastCall) (by decide : second ≠ 0)
  have hhigh := Int.emod_lt_of_pos (now - lastCall) (by decide : 0 < second)
  have hsecond : second = 10 ^ 9 := rfl
  rw [Holder.Fair, wakesAt, hdiv]
  dsimp only
  rw [hsecond] at hmod hlow hhigh ⊢
  split
  · exact ⟨by omega, Or.inr (by omega)⟩
  · exact ⟨by omega, Or.inl rfl⟩

theorem Sound.tick {c : Cooldown} {e : Engine} {clock now : Int} (h : Sound c e clock)
    (hle : clock ≤ now) : Sound c e now where
  last := Int.le_trans h.last hle
  passed := h.passed
  spaced := h.spaced
  fair := h.fair

theorem Sound.take {c : Cooldown} {e : Engine} {clock : Int} (h : Sound c e clock)
    (caller : Nat) : Sound c (e.take c caller clock) clock where
  last := h.last
  passed := h.passed
  spaced := h.spaced
  fair := by
    intro holder hholder
    cases hholder
    exact wakesAt_fair h.last

theorem Sound.pass {c : Cooldown} {e : Engine} {clock : Int} (h : Sound c e clock)
    {holder : Holder} (hholder : e.holder = some holder) (hwakes : holder.wakes ≤ clock) :
    Sound c (e.pass clock) clock where
  last := Int.le_refl clock
  passed := by
    intro t ht
    rcases List.mem_append.mp ht with ht | ht
    · exact Int.le_trans (h.passed t ht) h.last
    · exact Int.le_of_eq (List.mem_singleton.mp ht)
  spaced := by
    refine h.spaced.concat fun t ht => ?_
    have hpassed := h.passed t ht
    have hfair := (h.fair holder hholder).1
    omega
  fair := by
    intro holder hholder
    cases hholder

theorem sound_update {s : System} (h : ∀ c, Sound c (s.engines c) s.clock) {c : Cooldown}
    {e : Engine} (he : Sound c e s.clock) (c' : Cooldown) :
    Sound c' (Function.update s.engines c e c') s.clock := by
  by_cases hc : c' = c
  · subst hc
    rw [Function.update_self]
    exact he
  · rw [Function.update_of_ne hc]
    exact h c'

theorem step_sound {s s' : System} {event : Event} (h : ∀ c, Sound c (s.engines c) s.clock)
    (hstep : step s event = some s') (c : Cooldown) : Sound c (s'.engines c) s'.clock := by
  cases event with
  | tick now =>
      obtain ⟨hle, heq⟩ := Option.ite_none_right_eq_some.mp hstep
      cases heq
      exact (h c).tick hle
  | enter caller engine =>
      obtain ⟨-, heq⟩ := Option.ite_none_right_eq_some.mp hstep
      cases heq
      exact sound_update h ((h _).take caller) c
  | leave caller engine =>
      rw [step] at hstep
      split at hstep
      · rename_i holder hholder
        obtain ⟨⟨-, hwakes⟩, heq⟩ := Option.ite_none_right_eq_some.mp hstep
        cases heq
        exact sound_update h ((h _).pass hholder hwakes) c
      · cases hstep

/-- In every run of searches side by side the requests to an engine are let through at least its
interval apart, so that in a window of any length there are few of them; and a caller sleeps no
longer than to the end of the interval and less than a second on top. -/
theorem cooldown_spaced {start : Int} (hstart : 0 ≤ start) {s : System}
    (h : Run step AnyStep { clock := start } s) (c : Cooldown) :
    ((s.engines c).passes.Pairwise fun t later => t + c.minIntervalSec * second ≤ later) ∧
      (∀ since len : Int, ∀ n : Nat,
        ((s.engines c).passes.filter fun t => since ≤ t ∧ t < since + len).length = n + 1 →
          c.minIntervalSec * second * n < len) ∧
      ∀ holder ∈ (s.engines c).holder,
        (s.engines c).lastCall + c.minIntervalSec * second ≤ holder.wakes ∧
          (holder.wakes = holder.entered ∨
            holder.wakes < (s.engines c).lastCall + c.minIntervalSec * second + second) := by
  have hsound : ∀ c, Sound c (s.engines c) s.clock := by
    refine h.invariant (motive := fun s => ∀ c, Sound c (s.engines c) s.clock) ?_
      fun _ _ _ ih _ hstep => step_sound ih hstep
    exact fun c => ⟨hstart, by simp, List.Pairwise.nil, by simp⟩
  exact ⟨(hsound c).spaced, fun since len n => (hsound c).spaced.count_lt since len,
    (hsound c).fair⟩

/-- Two callers; the second one waits for the lock, and sleeps then. -/
def demoCalls : List Event :=
  [.tick (20 * second), .enter 0 (lit "bing"), .leave 0 (lit "bing"), .tick (22 * second + 5),
    .enter 1 (lit "bing"), .tick (35 * second + 5), .leave 1 (lit "bing")]

theorem cooldown_spaced_demo :
    ∃ s, Run step AnyStep { clock := 0 } s ∧
      (s.engines .bing).passes = [20 * second, 35 * second + 5] ∧
      (s.engines .bing).passes.Pairwise fun t later => t + minIntervalSec .bing * second ≤ later := by
  obtain ⟨s, hrun, hpasses⟩ := exists_run_of_any step AnyStep ({ clock := 0 } : System) demoCalls
    (p := fun s => (s.engines .bing).passes = [20 * second, 35 * second + 5]) (by decide +kernel)
  exact ⟨s, hrun, hpasses, (cooldown_spaced (Int.le_refl 0) hrun .bing).1⟩

end Cooldown

end JiuwenCore.Tools.WebSearchTool
