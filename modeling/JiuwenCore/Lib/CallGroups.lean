import Mathlib.Data.List.Basic
import Mathlib.Data.List.Nodup

/-!
# Calls and their answers

A sequence in which some elements open a group and the elements right after an
opener answer it. `Grouped` is the grammar of such a sequence, relative to the
relation that must hold between an opener and the answers that follow it.
-/

namespace JiuwenCore.CallGroups

universe u v

/-- Which elements open a group and which answer one. -/
structure Kinds (M : Type u) where
  opens : M → Prop
  answers : M → Prop
  not_both : ∀ m, opens m → ¬ answers m

variable {M : Type u} (K : Kinds M)

/-- Every answer stands in the run right after an opener, and `R` holds between
the opener and that run. -/
inductive Grouped (R : M → List M → Prop) : List M → Prop
  | nil : Grouped R []
  | plain {m : M} {rest : List M} : ¬ K.opens m → ¬ K.answers m → Grouped R rest →
      Grouped R (m :: rest)
  | group {m : M} {answers rest : List M} : K.opens m → (∀ a ∈ answers, K.answers a) →
      R m answers → Grouped R rest → Grouped R (m :: (answers ++ rest))

variable {K} {R S : M → List M → Prop}

theorem Grouped.mono (hRS : ∀ m answers, R m answers → S m answers) {l : List M}
    (h : Grouped K R l) : Grouped K S l := by
  induction h with
  | nil => exact .nil
  | plain ho ha _ ih => exact .plain ho ha ih
  | group ho ha hr _ ih => exact .group ho ha (hRS _ _ hr) ih

theorem Grouped.append {l l' : List M} (h : Grouped K R l) (h' : Grouped K R l') :
    Grouped K R (l ++ l') := by
  induction h with
  | nil => exact h'
  | plain ho ha _ ih => exact .plain ho ha ih
  | group ho ha hr _ ih =>
      rw [List.cons_append, List.append_assoc]
      exact .group ho ha hr ih

theorem Grouped.of_plain {l : List M} (h : ∀ m ∈ l, ¬ K.opens m ∧ ¬ K.answers m) :
    Grouped K R l := by
  induction l with
  | nil => exact .nil
  | cons m l ih =>
      have hm := h m List.mem_cons_self
      exact .plain hm.1 hm.2 (ih fun x hx => h x (List.mem_cons_of_mem m hx))

/-- What stays of the groups when answers are dropped, and elements outside of groups. -/
theorem Grouped.filter_of {p : M → Bool} {l : List M} (h : Grouped K R l)
    (hopens : ∀ m ∈ l, K.opens m → p m = true)
    (hanswers : ∀ m answers, R m answers → (∀ a ∈ answers, a ∈ l ∧ K.answers a) →
      S m (answers.filter p)) : Grouped K S (l.filter p) := by
  induction h with
  | nil => exact .nil
  | @plain m rest ho ha _ ih =>
      have hrest := ih (fun x hx => hopens x (List.mem_cons_of_mem m hx))
        fun x answers hr hin => hanswers x answers hr fun a hmem =>
          ⟨List.mem_cons_of_mem m (hin a hmem).1, (hin a hmem).2⟩
      cases hpm : p m with
      | false => rwa [List.filter_cons_of_neg (by simp [hpm])]
      | true =>
          rw [List.filter_cons_of_pos hpm]
          exact .plain ho ha hrest
  | @group m answers rest ho ha hr _ ih =>
      have hlater : ∀ x ∈ rest, x ∈ m :: (answers ++ rest) := fun x hx =>
        List.mem_cons_of_mem m (List.mem_append_right answers hx)
      have hrest := ih (fun x hx => hopens x (hlater x hx))
        fun x answers' hr' hin => hanswers x answers' hr' fun a hmem =>
          ⟨hlater a (hin a hmem).1, (hin a hmem).2⟩
      have hkept := hanswers m answers hr fun a hmem =>
        ⟨List.mem_cons_of_mem m (List.mem_append_left rest hmem), ha a hmem⟩
      rw [List.filter_cons_of_pos (hopens m List.mem_cons_self ho), List.filter_append]
      exact .group ho (fun a hmem => ha a (List.mem_of_mem_filter hmem)) hkept hrest

/-- Dropping elements outside of groups keeps the groups. -/
theorem Grouped.filter {p : M → Bool} {l : List M} (h : Grouped K R l)
    (hp : ∀ m ∈ l, K.opens m ∨ K.answers m → p m = true) : Grouped K R (l.filter p) := by
  apply h.filter_of fun m hm ho => hp m hm (.inl ho)
  intro m answers hr hin
  have hall : answers.filter p = answers := List.filter_eq_self.mpr fun a hmem =>
    hp a (hin a hmem).1 (.inr (hin a hmem).2)
  rwa [hall]

/-- Cutting a grouped sequence before a non-answer leaves two grouped sequences. -/
theorem Grouped.split {l : List M} (h : Grouped K R l) :
    ∀ {a b : List M}, l = a ++ b → (∀ x, b.head? = some x → ¬ K.answers x) →
      Grouped K R a ∧ Grouped K R b := by
  induction h with
  | nil =>
      intro a b hl _
      obtain ⟨rfl, rfl⟩ := List.append_eq_nil_iff.mp hl.symm
      exact ⟨.nil, .nil⟩
  | @plain m rest ho ha hrest ih =>
      intro a b hl hb
      cases a with
      | nil => exact ⟨.nil, by rw [List.nil_append] at hl; exact hl ▸ .plain ho ha hrest⟩
      | cons x a =>
          simp only [List.cons_append, List.cons.injEq] at hl
          rcases hl with ⟨rfl, hl⟩
          obtain ⟨h₁, h₂⟩ := ih hl hb
          exact ⟨.plain ho ha h₁, h₂⟩
  | @group m answers rest ho ha hr hrest ih =>
      intro a b hl hb
      cases a with
      | nil => exact ⟨.nil, by rw [List.nil_append] at hl; exact hl ▸ .group ho ha hr hrest⟩
      | cons x a =>
          simp only [List.cons_append, List.cons.injEq] at hl
          rcases hl with ⟨rfl, hl⟩
          -- the cut is not inside the run of answers, since `b` starts with a non-answer
          rcases List.append_eq_append_iff.mp hl with ⟨c, rfl, hrest'⟩ | ⟨c, rfl, rfl⟩
          · obtain ⟨h₁, h₂⟩ := ih hrest' hb
            exact ⟨.group ho ha hr h₁, h₂⟩
          · cases c with
            | nil =>
                refine ⟨?_, by simpa using hrest⟩
                have hlone : Grouped K R (m :: (a ++ [] ++ [])) := .group ho ha hr .nil
                simpa using hlone
            | cons y c =>
                exact absurd (ha y (by simp)) (hb y (by simp))

/-- What is left of a grouped sequence after its first `n` elements: the rest of
the answers of one opener that is gone, and a grouped sequence. -/
theorem Grouped.drop {l : List M} (h : Grouped K R l) (n : Nat) :
    ∃ orphans rest, l.drop n = orphans ++ rest ∧ (∀ o ∈ orphans, K.answers o) ∧
      Grouped K R rest ∧
      (orphans = [] ∨ ∃ before m answers, l = before ++ m :: (answers ++ rest) ∧ K.opens m ∧
        R m answers ∧ orphans <:+ answers) := by
  induction h generalizing n with
  | nil => exact ⟨[], [], by simp, by simp, .nil, .inl rfl⟩
  | @plain m rest ho ha hrest ih =>
      cases n with
      | zero => exact ⟨[], m :: rest, rfl, by simp, .plain ho ha hrest, .inl rfl⟩
      | succ n =>
          obtain ⟨orphans, rest', hd, hans, hg, horig⟩ := ih n
          refine ⟨orphans, rest', by simpa using hd, hans, hg, ?_⟩
          rcases horig with h | ⟨before, x, answers, heq, hx⟩
          · exact .inl h
          · exact .inr ⟨m :: before, x, answers, by simp [heq], hx⟩
  | @group m answers rest ho ha hr hrest ih =>
      cases n with
      | zero => exact ⟨[], m :: (answers ++ rest), rfl, by simp, .group ho ha hr hrest, .inl rfl⟩
      | succ n =>
          by_cases hn : n ≤ answers.length
          · refine ⟨answers.drop n, rest, ?_, ?_, hrest, ?_⟩
            · rw [List.drop_succ_cons, List.drop_append_of_le_length hn]
            · exact fun o hmem => ha o (List.mem_of_mem_drop hmem)
            · exact .inr ⟨[], m, answers, rfl, ho, hr, List.drop_suffix n answers⟩
          · obtain ⟨orphans, rest', hd, hans, hg, horig⟩ := ih (n - answers.length)
            refine ⟨orphans, rest', ?_, hans, hg, ?_⟩
            · rw [List.drop_succ_cons, List.drop_append, List.drop_eq_nil_of_le (by omega), hd]
              rfl
            · rcases horig with h | ⟨before, x, xs, heq, hx⟩
              · exact .inl h
              · exact .inr ⟨m :: (answers ++ before), x, xs, by simp [heq], hx⟩

/-! ## Answers by id -/

variable {ι : Type v} (callIds : M → List ι) (answerId : M → ι)

/-- The answers of an opener are, in order, for some of its calls. -/
def PartlyAnswered (m : M) (answers : List M) : Prop :=
  (answers.map answerId).Sublist (callIds m)

/-- The answers of an opener are exactly one for each of its calls, in order. -/
def FullyAnswered (m : M) (answers : List M) : Prop := answers.map answerId = callIds m

theorem FullyAnswered.partly {m : M} {answers : List M}
    (h : FullyAnswered callIds answerId m answers) : PartlyAnswered callIds answerId m answers := by
  unfold PartlyAnswered
  rw [h]

/-- Dropping answers leaves the groups answered in part. -/
theorem Grouped.filter_partly {callIds : M → List ι} {answerId : M → ι} {p : M → Bool}
    {l : List M} (h : Grouped K (PartlyAnswered callIds answerId) l)
    (hp : ∀ m ∈ l, K.opens m → p m = true) :
    Grouped K (PartlyAnswered callIds answerId) (l.filter p) := by
  apply h.filter_of hp
  intro m answers hr _
  exact (List.filter_sublist.map answerId).trans hr

/-- So does cutting the end off. -/
theorem Grouped.take_partly {callIds : M → List ι} {answerId : M → ι} {l : List M}
    (h : Grouped K (PartlyAnswered callIds answerId) l) (n : Nat) :
    Grouped K (PartlyAnswered callIds answerId) (l.take n) := by
  induction h generalizing n with
  | nil =>
      rw [List.take_nil]
      exact .nil
  | @plain m rest ho ha _ ih =>
      cases n with
      | zero => exact .nil
      | succ n => exact .plain ho ha (ih n)
  | @group m answers rest ho ha hr _ ih =>
      cases n with
      | zero => exact .nil
      | succ n =>
          have hanswers : PartlyAnswered callIds answerId m (answers.take n) :=
            ((List.take_sublist n answers).map answerId).trans hr
          rw [List.take_succ_cons, List.take_append]
          exact .group ho (fun a hmem => ha a (List.mem_of_mem_take hmem)) hanswers (ih _)

/-- Filtering a duplicate-free list by membership in a sublist gives the sublist. -/
theorem filter_of_sublist {s l : List ι} (h : s.Sublist l) (hl : l.Nodup) {p : ι → Bool}
    (hp : ∀ i ∈ l, p i = true ↔ i ∈ s) : l.filter p = s := by
  induction h with
  | slnil => rfl
  | @cons s l a hs ih =>
      obtain ⟨ha, hnd⟩ := List.nodup_cons.mp hl
      have hdrop : ¬ p a = true := fun h => ha (hs.subset ((hp a List.mem_cons_self).mp h))
      rw [List.filter_cons_of_neg hdrop]
      exact ih hnd fun i hi => hp i (List.mem_cons_of_mem a hi)
  | @cons_cons s l a hs ih =>
      obtain ⟨ha, hnd⟩ := List.nodup_cons.mp hl
      rw [List.filter_cons_of_pos ((hp a List.mem_cons_self).mpr List.mem_cons_self), ih hnd]
      intro i hi
      have hne : i ≠ a := fun h => ha (h ▸ hi)
      rw [hp i (List.mem_cons_of_mem a hi), List.mem_cons, or_iff_right hne]

end JiuwenCore.CallGroups
