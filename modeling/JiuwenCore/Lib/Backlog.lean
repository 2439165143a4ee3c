import Mathlib.Data.List.Pairwise
import Mathlib.Order.Basic

/-!
# Reading above a cursor

A list in the order of a key, and a reader that keeps the key of the last element it has
read. What is above the key of an element is what stands behind it.
-/

namespace JiuwenCore.Backlog

variable {α : Type} {key : α → Int} {l : List α}

/-- The elements whose keys are above the cursor. -/
def above (key : α → Int) (cursor : Int) (l : List α) : List α :=
  l.filter fun x => decide (cursor < key x)

def Ordered (key : α → Int) (l : List α) : Prop := l.Pairwise fun x y => key x < key y

instance (key : α → Int) (l : List α) : Decidable (Ordered key l) :=
  inferInstanceAs (Decidable (List.Pairwise ..))

theorem Ordered.drop (h : Ordered key l) (k : Nat) : Ordered key (l.drop k) :=
  List.Pairwise.sublist (List.drop_sublist k l) h

theorem above_above {c d : Int} (h : c ≤ d) (l : List α) :
    above key d (above key c l) = above key d l := by
  unfold above
  rw [List.filter_filter]
  refine List.filter_congr fun x _ => ?_
  by_cases hd : d < key x
  · have hc : c < key x := by omega
    simp [hc, hd]
  · simp [hd]

theorem above_eq_self {c : Int} (h : ∀ x ∈ l, c < key x) : above key c l = l :=
  List.filter_eq_self.mpr fun x hx => decide_eq_true (h x hx)

/-- Above the key of an element is what stands behind it. -/
theorem Ordered.above_key (h : Ordered key l) {k : Nat} {x : α} (hx : l[k]? = some x) :
    above key (key x) l = l.drop (k + 1) := by
  induction l generalizing k with
  | nil => simp at hx
  | cons head rest ih =>
      obtain ⟨hhead, hrest⟩ := List.pairwise_cons.mp h
      cases k with
      | zero =>
          cases hx
          rw [above, List.filter_cons_of_neg (by simp)]
          exact above_eq_self hhead
      | succ k =>
          have hlt : ¬ key x < key head := by
            have := hhead x (List.mem_of_getElem? hx)
            omega
          rw [above, List.filter_cons_of_neg (by simpa using hlt)]
          exact ih hrest hx

/-- Keys between two bounds leave room for one element each. -/
theorem Ordered.length_lt (h : Ordered key l) {a b : Int} (hab : a < b)
    (hbounds : ∀ x ∈ l, a < key x ∧ key x < b) : (l.length : Int) < b - a := by
  induction l generalizing a with
  | nil =>
      rw [List.length_nil]
      omega
  | cons head rest ih =>
      obtain ⟨hhead, hrest⟩ := List.pairwise_cons.mp h
      have hkey := hbounds head List.mem_cons_self
      have hlen := ih hrest hkey.2 fun x hx =>
        ⟨hhead x hx, (hbounds x (List.mem_cons_of_mem _ hx)).2⟩
      rw [List.length_cons]
      omega

end JiuwenCore.Backlog
