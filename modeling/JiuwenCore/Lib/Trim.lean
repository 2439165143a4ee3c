import Mathlib.Data.List.TakeWhile

/-!
# Trimming

A list without the elements of a kind that stand in front and at the end.
-/

namespace JiuwenCore.Trim

variable {α : Type*} (p : α → Bool)

def trim (l : List α) : List α := ((l.dropWhile p).reverse.dropWhile p).reverse

variable {p}

/-- Only elements of the kind are taken away. -/
theorem trim_split (l : List α) :
    ∃ front back, l = front ++ (trim p l ++ back) ∧ (∀ x ∈ front, p x) ∧ ∀ x ∈ back, p x := by
  have hfront := List.takeWhile_append_dropWhile (p := p) (l := l)
  have hback := List.takeWhile_append_dropWhile (p := p) (l := (l.dropWhile p).reverse)
  refine ⟨l.takeWhile p, ((l.dropWhile p).reverse.takeWhile p).reverse, ?_, ?_, ?_⟩
  · rw [trim, ← List.reverse_append, hback, List.reverse_reverse, hfront]
  · intro x hx
    exact List.mem_takeWhile_imp hx
  · intro x hx
    exact List.mem_takeWhile_imp (List.mem_reverse.mp hx)

theorem trim_infix (l : List α) : trim p l <:+: l := by
  obtain ⟨front, back, heq, -, -⟩ := trim_split (p := p) l
  exact ⟨front, back, by rw [List.append_assoc]; exact heq.symm⟩

theorem filter_trim (l : List α) :
    (trim p l).filter (fun x => ¬ p x) = l.filter fun x => ¬ p x := by
  obtain ⟨front, back, heq, hfront, hback⟩ := trim_split (p := p) l
  have hnone : ∀ m : List α, (∀ x ∈ m, p x) → m.filter (fun x => ¬ p x) = [] := by
    intro m hm
    rw [List.filter_eq_nil_iff]
    intro x hx
    simp [hm x hx]
  have hwhole := congrArg (List.filter fun x => ¬ p x) heq
  rw [List.filter_append, List.filter_append, hnone front hfront, hnone back hback,
    List.nil_append, List.append_nil] at hwhole
  exact hwhole.symm

theorem dropWhile_eq_self {l : List α} (h : ∀ x ∈ l.head?, ¬ p x) : l.dropWhile p = l := by
  cases l with
  | nil => rfl
  | cons x l => exact List.dropWhile_cons_of_neg (h x rfl)

/-- What is left neither starts nor ends with an element of the kind. -/
theorem trim_ends (l : List α) :
    (∀ x ∈ (trim p l).head?, ¬ p x) ∧ ∀ x ∈ (trim p l).getLast?, ¬ p x := by
  have hdrop : ∀ m : List α, ∀ x ∈ (m.dropWhile p).head?, ¬ p x := by
    intro m x hx
    have hhead := List.head?_dropWhile_not p m
    rw [Option.mem_def.mp hx] at hhead
    simpa using hhead
  constructor
  · intro x hx
    have hprefix : trim p l <+: l.dropWhile p := by
      rw [trim, ← List.reverse_suffix, List.reverse_reverse]
      exact List.dropWhile_suffix p
    obtain ⟨rest, hrest⟩ := hprefix
    refine hdrop l x ?_
    rw [← hrest, List.head?_append, Option.mem_def.mp hx]
    rfl
  · intro x hx
    rw [trim, List.getLast?_reverse] at hx
    exact hdrop _ x hx

theorem trim_eq_nil {l : List α} (h : (l.filter fun x => ¬ p x) = []) : trim p l = [] := by
  rw [← filter_trim] at h
  cases htrim : trim p l with
  | nil => rfl
  | cons x rest =>
      have hx := (trim_ends (p := p) l).1 x (by rw [htrim]; rfl)
      rw [htrim, List.filter_cons_of_pos (by simpa using hx)] at h
      cases h

theorem trim_trim (l : List α) : trim p (trim p l) = trim p l := by
  obtain ⟨hhead, hlast⟩ := trim_ends (p := p) l
  rw [trim, dropWhile_eq_self hhead, dropWhile_eq_self, List.reverse_reverse]
  intro x hx
  rw [List.head?_reverse] at hx
  exact hlast x hx

end JiuwenCore.Trim
