import Mathlib.Data.List.Basic
import Mathlib.Logic.Function.Basic

/-!
# Reconciling what runs with what is wanted

A table remembers under each key the last specification it was given and what runs there. A load
goes through a list of specifications, starts those that differ from the last one by a test of
its own, stops the disabled ones and those whose keys are missing, and keeps the rest. What runs
afterwards is what was wanted, and another load of the list changes nothing, exactly when no two
specifications compete for a key and the test finds every difference to what runs.
-/

namespace JiuwenCore.Reconcile

universe u v

/-- What is known under a key. -/
structure Slot (σ : Type u) where
  last : Option σ := none
  running : Option σ := none

/-- The specifications, their keys, and the test for a difference to the last one. -/
structure Rules (σ : Type u) (κ : Type v) where
  key : σ → κ
  enabled : σ → Bool
  changed : σ → σ → Bool
  changed_self : ∀ c, changed c c = false

variable {σ : Type u} {κ : Type v}

namespace Slot

variable {c d : σ} {slot : Slot σ}

/-- What runs was given last, and is enabled. -/
def Ok (enabled : σ → Bool) (slot : Slot σ) : Prop :=
  ∀ c, slot.running = some c → slot.last = some c ∧ enabled c = true

end Slot

namespace Rules

variable (rules : Rules σ κ)

/-- The last specification is the given one, as far as the test can tell. -/
def Unchanged (last : Option σ) (c : σ) : Prop := ∃ l ∈ last, rules.changed l c = false

instance (last : Option σ) (c : σ) : Decidable (rules.Unchanged last c) :=
  match last with
  | none => isFalse nofun
  | some l =>
      if h : rules.changed l c = false then isTrue ⟨l, rfl, h⟩
      else isFalse fun ⟨_, hl, hsame⟩ => h (Option.some.inj hl ▸ hsame)

/-- A specification is given to its slot, and what has to be started starts. -/
def put (slot : Slot σ) (c : σ) : Slot σ :=
  if rules.enabled c = false then
    { last := some c, running := if slot.last.isSome then none else slot.running }
  else if rules.Unchanged slot.last c then slot
  else { last := some c, running := some c }

/-- Giving the specification starts and stops nothing. -/
def Quiet (slot : Slot σ) (c : σ) : Prop :=
  if rules.enabled c = false then slot.running = none else rules.Unchanged slot.last c

abbrev Table (σ : Type u) (κ : Type v) := κ → Slot σ

def apply [DecidableEq κ] (t : Table σ κ) (c : σ) : Table σ κ :=
  Function.update t (rules.key c) (rules.put (t (rules.key c)) c)

/-- The slots without a specification in the list are stopped. -/
def drop [DecidableEq κ] (wanted : List σ) (t : Table σ κ) : Table σ κ := fun k =>
  if ∃ c ∈ wanted, rules.key c = k then t k else { t k with running := none }

def load [DecidableEq κ] (t : Table σ κ) (wanted : List σ) : Table σ κ :=
  wanted.foldl rules.apply (rules.drop wanted t)

/-- Giving the specifications one after the other starts and stops nothing. -/
def QuietAll [DecidableEq κ] (t : Table σ κ) : List σ → Prop
  | [] => True
  | c :: rest => rules.Quiet (t (rules.key c)) c ∧ QuietAll (rules.apply t c) rest

def Sound (t : Table σ κ) : Prop := ∀ k, (t k).Ok rules.enabled

/-- What runs is what is wanted. -/
def Meets (t : Table σ κ) (wanted : List σ) : Prop :=
  ∀ k c, (t k).running = some c ↔ c ∈ wanted ∧ rules.enabled c = true ∧ rules.key c = k

/-- No other specification has the key of an enabled one, and one that seems to be unchanged is
what runs. -/
structure Clear (t : Table σ κ) (wanted : List σ) : Prop where
  alone : ∀ c ∈ wanted, ∀ d ∈ wanted, rules.enabled c = true → rules.key c = rules.key d → c = d
  same : ∀ c ∈ wanted, rules.enabled c = true → rules.Unchanged (t (rules.key c)).last c →
    (t (rules.key c)).running = some c

variable {rules : Rules σ κ} {t t' : Table σ κ} {slot : Slot σ} {wanted rest : List σ} {c d : σ}
  {k : κ}

/-! ## One slot -/

theorem put_disabled (h : rules.enabled c = false) : rules.put slot c =
    { last := some c, running := if slot.last.isSome then none else slot.running } :=
  if_pos h

theorem put_unchanged (h : rules.enabled c = true) (hsame : rules.Unchanged slot.last c) :
    rules.put slot c = slot := by
  unfold put
  rw [if_neg (by rw [h]; decide), if_pos hsame]

theorem put_changed (h : rules.enabled c = true) (hchanged : ¬ rules.Unchanged slot.last c) :
    rules.put slot c = { last := some c, running := some c } := by
  unfold put
  rw [if_neg (by rw [h]; decide), if_neg hchanged]

theorem put_last (slot : Slot σ) (c : σ) : (rules.put slot c).last =
    if rules.enabled c = true ∧ rules.Unchanged slot.last c then slot.last else some c := by
  cases h : rules.enabled c with
  | false => simp [put_disabled h]
  | true =>
      by_cases hsame : rules.Unchanged slot.last c
      · rw [put_unchanged h hsame, if_pos ⟨rfl, hsame⟩]
      · rw [put_changed h hsame, if_neg fun hboth => hsame hboth.2]

theorem put_ok (h : slot.Ok rules.enabled) (c : σ) : (rules.put slot c).Ok rules.enabled := by
  intro d hd
  cases henabled : rules.enabled c with
  | false =>
      rw [put_disabled henabled] at hd
      cases hlast : slot.last with
      | some l =>
          simp only [hlast, Option.isSome_some, if_true] at hd
          cases hd
      | none =>
          simp only [hlast, Option.isSome_none, Bool.false_eq_true, if_false] at hd
          have hgiven := (h d hd).1
          rw [hlast] at hgiven
          cases hgiven
  | true =>
      by_cases hsame : rules.Unchanged slot.last c
      · rw [put_unchanged henabled hsame] at hd ⊢
        exact h d hd
      · rw [put_changed henabled hsame] at hd ⊢
        cases hd
        exact ⟨rfl, henabled⟩

/-- What is disabled does not run. -/
theorem put_disabled_running (h : slot.Ok rules.enabled) (hc : rules.enabled c = false) :
    (rules.put slot c).running = none := by
  cases hrunning : (rules.put slot c).running with
  | none => rfl
  | some d =>
      have hok := put_ok h c d hrunning
      rw [put_disabled hc] at hok
      cases hok.1
      rw [hc] at hok
      cases hok.2

theorem put_wanted (h : slot.Ok rules.enabled) (hc : rules.enabled c = true)
    (hsame : rules.Unchanged slot.last c → slot.running = some c) :
    rules.put slot c = { last := some c, running := some c } := by
  by_cases hunchanged : rules.Unchanged slot.last c
  · rw [put_unchanged hc hunchanged]
    have hrunning := hsame hunchanged
    have hlast := (h c hrunning).1
    rcases slot with ⟨last, running⟩
    cases hrunning
    cases hlast
    rfl
  · exact put_changed hc hunchanged

theorem quiet_disabled (rules : Rules σ κ) (h : rules.enabled c = false) :
    rules.Quiet slot c ↔ slot.running = none := by
  rw [Quiet, if_pos h]

theorem quiet_enabled (rules : Rules σ κ) (h : rules.enabled c = true) :
    rules.Quiet slot c ↔ rules.Unchanged slot.last c := by
  rw [Quiet, if_neg (by rw [h]; decide)]

theorem Quiet.put_running (h : rules.Quiet slot c) :
    (rules.put slot c).running = slot.running := by
  cases hc : rules.enabled c with
  | false =>
      rw [rules.quiet_disabled hc] at h
      rw [put_disabled hc, h, ite_self]
  | true =>
      rw [rules.quiet_enabled hc] at h
      rw [put_unchanged hc h]

/-! ## The table -/

variable [DecidableEq κ]

/-- A slot sees the specifications with its key. -/
theorem foldl_apply (wanted : List σ) (t : Table σ κ) (k : κ) :
    wanted.foldl rules.apply t k =
      (wanted.filter fun c => rules.key c = k).foldl rules.put (t k) := by
  induction wanted generalizing t with
  | nil => rfl
  | cons c rest ih =>
      rw [List.foldl_cons, ih]
      by_cases hk : rules.key c = k
      · rw [List.filter_cons_of_pos (by simpa using hk), List.foldl_cons, apply, hk,
          Function.update_self]
      · rw [List.filter_cons_of_neg (by simpa using hk), apply,
          Function.update_of_ne (Ne.symm hk)]

theorem Sound.apply (h : rules.Sound t) (c : σ) : rules.Sound (rules.apply t c) := by
  intro k
  by_cases hk : k = rules.key c
  · rw [hk, Rules.apply, Function.update_self]
    exact put_ok (h _) c
  · rw [Rules.apply, Function.update_of_ne hk]
    exact h k

theorem Sound.drop (h : rules.Sound t) (wanted : List σ) : rules.Sound (rules.drop wanted t) := by
  intro k
  unfold Rules.drop
  split
  · exact h k
  · exact nofun

theorem drop_of_mem (h : c ∈ wanted) : rules.drop wanted t (rules.key c) = t (rules.key c) :=
  if_pos ⟨c, h, rfl⟩

theorem load_of_mem (h : c ∈ wanted) : rules.load t wanted (rules.key c) =
    (wanted.filter fun d => rules.key d = rules.key c).foldl rules.put (t (rules.key c)) := by
  rw [load, foldl_apply, drop_of_mem h]

/-- The key of an enabled specification that nothing competes with. -/
theorem load_alone (hclear : rules.Clear t wanted) (hsound : rules.Sound t) (hc : c ∈ wanted)
    (henabled : rules.enabled c = true) :
    rules.load t wanted (rules.key c) = { last := some c, running := some c } := by
  have hall : ∀ (M : List σ) (slot : Slot σ), (∀ d ∈ M, d = c) → slot.Ok rules.enabled →
      (rules.Unchanged slot.last c → slot.running = some c) →
      (M ≠ [] ∨ slot = { last := some c, running := some c }) →
      M.foldl rules.put slot = { last := some c, running := some c } := by
    intro M
    induction M with
    | nil =>
        intro slot _ _ _ hstart
        rcases hstart with hne | hslot
        · exact absurd rfl hne
        · exact hslot
    | cons d rest ih =>
        intro slot hM hok hsame _
        rw [List.foldl_cons, hM d List.mem_cons_self]
        have hput := put_wanted hok henabled hsame
        apply ih _ fun e he => hM e (List.mem_cons_of_mem d he)
        · exact put_ok hok c
        · exact fun _ => by rw [hput]
        · exact .inr hput
  rw [load_of_mem hc]
  apply hall _ _ _ (hsound _) (hclear.same c hc henabled)
  · left
    exact List.ne_nil_of_mem (List.mem_filter.mpr ⟨hc, by simp⟩)
  · intro d hd
    obtain ⟨hd, hkey⟩ := List.mem_filter.mp hd
    exact (hclear.alone c hc d hd henabled (of_decide_eq_true hkey).symm).symm

/-- A key without an enabled specification. -/
theorem load_disabled (hsound : rules.Sound t)
    (hnone : ∀ c ∈ wanted, rules.key c = k → rules.enabled c = false) :
    (rules.load t wanted k).running = none := by
  have hall : ∀ (M : List σ) (slot : Slot σ), (∀ d ∈ M, rules.enabled d = false) →
      slot.Ok rules.enabled → (M ≠ [] ∨ slot.running = none) →
      (M.foldl rules.put slot).running = none := by
    intro M
    induction M with
    | nil =>
        intro slot _ _ hstart
        rcases hstart with hne | hslot
        · exact absurd rfl hne
        · exact hslot
    | cons d rest ih =>
        intro slot hM hok _
        apply ih _ fun e he => hM e (List.mem_cons_of_mem d he)
        · exact put_ok hok d
        · exact .inr (put_disabled_running hok (hM d List.mem_cons_self))
  rw [load, foldl_apply]
  apply hall _ _ _ (hsound.drop wanted k)
  · by_cases hmem : ∃ c ∈ wanted, rules.key c = k
    · rcases hmem with ⟨c, hc, hk⟩
      left
      exact List.ne_nil_of_mem (List.mem_filter.mpr ⟨hc, by simpa using hk⟩)
    · right
      rw [drop, if_neg hmem]
  · intro d hd
    obtain ⟨hd, hkey⟩ := List.mem_filter.mp hd
    exact hnone d hd (of_decide_eq_true hkey)

theorem Clear.meets (hclear : rules.Clear t wanted) (hsound : rules.Sound t) :
    rules.Meets (rules.load t wanted) wanted := by
  intro k c
  constructor
  · intro hrunning
    by_cases hsome : ∃ d ∈ wanted, rules.key d = k ∧ rules.enabled d = true
    · rcases hsome with ⟨d, hd, rfl, henabled⟩
      rw [load_alone hclear hsound hd henabled] at hrunning
      cases hrunning
      exact ⟨hd, henabled, rfl⟩
    · rw [load_disabled hsound fun d hd hk =>
        eq_false_of_ne_true fun hon => hsome ⟨d, hd, hk, hon⟩] at hrunning
      cases hrunning
  · rintro ⟨hc, henabled, rfl⟩
    rw [load_alone hclear hsound hc henabled]

/-! ## Another load -/

theorem QuietAll.running_eq (h : rules.Quiet (t (rules.key c)) c) (k : κ) :
    (rules.apply t c k).running = (t k).running := by
  by_cases hk : k = rules.key c
  · rw [hk, apply, Function.update_self]
    exact h.put_running
  · rw [apply, Function.update_of_ne hk]

/-- Nothing runs under the key of a disabled specification if giving it stops nothing. -/
theorem QuietAll.disabled (h : rules.QuietAll t rest) (hd : d ∈ rest)
    (hoff : rules.enabled d = false) : (t (rules.key d)).running = none := by
  induction rest generalizing t with
  | nil => cases hd
  | cons c rest ih =>
      rcases List.mem_cons.mp hd with rfl | hd
      · exact (rules.quiet_disabled hoff).mp h.1
      · rw [← QuietAll.running_eq h.1]
        exact ih h.2 hd

/-- What a load of specifications that do not compete leaves is quiet. -/
theorem Clear.quietAll (hclear : rules.Clear t wanted) (hsound : rules.Sound t) :
    rules.QuietAll (rules.load t wanted) wanted := by
  have hall : ∀ (rest : List σ) (u : Table σ κ), (∀ c ∈ rest, c ∈ wanted) →
      (∀ c ∈ wanted, rules.enabled c = true → (u (rules.key c)).last = some c) →
      (∀ c ∈ wanted, rules.enabled c = false → (u (rules.key c)).running = none) →
      rules.QuietAll u rest := by
    intro rest
    induction rest with
    | nil => exact fun _ _ _ _ => trivial
    | cons c rest ih =>
        intro u hrest hon hoff
        have hc := hrest c List.mem_cons_self
        have hquiet : rules.Quiet (u (rules.key c)) c := by
          cases henabled : rules.enabled c with
          | false => exact (rules.quiet_disabled henabled).mpr (hoff c hc henabled)
          | true =>
              rw [rules.quiet_enabled henabled]
              exact ⟨c, hon c hc henabled, rules.changed_self c⟩
        refine ⟨hquiet, ih _ (fun e he => hrest e (List.mem_cons_of_mem c he)) ?_ ?_⟩
        · intro d hd henabled
          by_cases hk : rules.key d = rules.key c
          · -- an enabled specification shares its key with itself only
            cases hclear.alone d hd c hc henabled hk
            have hsame : rules.Unchanged (u (rules.key c)).last c :=
              ⟨c, hon c hc henabled, rules.changed_self c⟩
            rw [apply, put_unchanged henabled hsame, Function.update_eq_self]
            exact hon c hc henabled
          · rw [apply, Function.update_of_ne hk]
            exact hon d hd henabled
        · intro d hd hdisabled
          rw [QuietAll.running_eq hquiet]
          exact hoff d hd hdisabled
  apply hall wanted _ fun c hc => hc
  · intro c hc henabled
    rw [load_alone hclear hsound hc henabled]
  · intro c hc hdisabled
    apply load_disabled hsound
    intro d hd hk
    rw [Bool.eq_false_iff]
    intro henabled
    cases hclear.alone d hd c hc henabled hk
    rw [henabled] at hdisabled
    cases hdisabled

theorem Meets.clear (hmeets : rules.Meets (rules.load t wanted) wanted)
    (hquiet : rules.QuietAll (rules.load t wanted) wanted) : rules.Clear t wanted := by
  have hruns : ∀ c ∈ wanted, rules.enabled c = true →
      (rules.load t wanted (rules.key c)).running = some c :=
    fun c hc henabled => (hmeets _ c).mpr ⟨hc, henabled, rfl⟩
  have halone : ∀ c ∈ wanted, ∀ d ∈ wanted, rules.enabled c = true →
      rules.key c = rules.key d → c = d := by
    intro c hc d hd henabled hk
    have hrunning := hruns c hc henabled
    rw [hk] at hrunning
    cases hd' : rules.enabled d with
    | true =>
        rw [hruns d hd hd'] at hrunning
        exact (Option.some.inj hrunning).symm
    | false =>
        rw [hquiet.disabled hd hd'] at hrunning
        cases hrunning
  refine ⟨halone, fun c hc henabled hsame => ?_⟩
  have hrunning := hruns c hc henabled
  have hstays : ∀ M : List σ, (∀ d ∈ M, d = c) →
      M.foldl rules.put (t (rules.key c)) = t (rules.key c) := by
    intro M
    induction M with
    | nil => exact fun _ => rfl
    | cons d rest ih =>
        intro hM
        rw [List.foldl_cons, hM d List.mem_cons_self, put_unchanged henabled hsame]
        exact ih fun e he => hM e (List.mem_cons_of_mem d he)
  rw [load_of_mem hc, hstays] at hrunning
  · exact hrunning
  · intro d hd
    obtain ⟨hd, hkey⟩ := List.mem_filter.mp hd
    exact (halone c hc d hd henabled (of_decide_eq_true hkey).symm).symm

/-- What runs after a load is what was wanted, and the load of the same list is quiet, if and
only if no two specifications compete and what seems to be unchanged is what runs. -/
theorem meets_and_quiet_iff (hsound : rules.Sound t) :
    rules.Meets (rules.load t wanted) wanted ∧ rules.QuietAll (rules.load t wanted) wanted ↔
      rules.Clear t wanted :=
  ⟨fun h => h.1.clear h.2, fun h => ⟨h.meets hsound, h.quietAll hsound⟩⟩

end Rules

end JiuwenCore.Reconcile
