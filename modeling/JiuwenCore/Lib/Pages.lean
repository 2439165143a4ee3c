import Mathlib.Data.List.Basic

/-!
# Reading a list page by page

A page shows some of the items behind a position, and a reader goes on where it ends. All
items are seen, each once, where no page on the way is empty; behind an empty page the reader
stays where it is.
-/

namespace JiuwenCore.Pages

universe u

variable {α : Type u} (items : List α) (size : Nat → Nat)

/-- What the page at a position shows. -/
def shown (pos : Nat) : List α := (items.drop pos).take (size pos)

/-- The items of the pages from a position on; `none` where the fuel does not suffice. -/
def follow : Nat → Nat → Option (List α)
  | 0, _ => none
  | fuel + 1, pos =>
      if pos + size pos < items.length then
        (follow fuel (pos + size pos)).map (shown items size pos ++ ·)
      else some (shown items size pos)

/-- The positions of the pages, from the first one on. -/
inductive Reached : Nat → Prop
  | start : Reached 0
  | next {pos : Nat} (h : Reached pos) (hmore : pos + size pos < items.length) :
      Reached (pos + size pos)

theorem shown_append (pos : Nat) :
    shown items size pos ++ items.drop (pos + size pos) = items.drop pos := by
  rw [shown, ← List.drop_drop, List.take_append_drop]

theorem follow_of_advances (h : ∀ pos, Reached items size pos → 0 < size pos) {fuel pos : Nat}
    (hpos : Reached items size pos) (hfuel : items.length < fuel + pos) (hlt : pos < items.length) :
    follow items size fuel pos = some (items.drop pos) := by
  induction fuel generalizing pos with
  | zero => omega
  | succ fuel ih =>
      have hsize := h pos hpos
      rw [follow]
      split
      · rename_i hmore
        rw [ih (hpos.next hmore) (by omega) hmore, Option.map_some, shown_append]
      · rw [shown, List.take_of_length_le]
        rw [List.length_drop]
        omega

/-- An empty page is shown again and again. -/
theorem follow_stuck {pos : Nat} (hlt : pos < items.length) (hsize : size pos = 0) (fuel : Nat) :
    follow items size fuel pos = none := by
  induction fuel with
  | zero => rfl
  | succ fuel ih => rw [follow, hsize, Nat.add_zero, if_pos hlt, ih, Option.map_none]

theorem follow_reached {fuel : Nat} (h : (follow items size fuel 0).isSome = true) {pos : Nat}
    (hpos : Reached items size pos) : ∃ fuel, (follow items size fuel pos).isSome = true := by
  induction hpos with
  | start => exact ⟨fuel, h⟩
  | @next pos _ hmore ih =>
      obtain ⟨fuel, hfuel⟩ := ih
      cases fuel with
      | zero => cases hfuel
      | succ fuel =>
          rw [follow, if_pos hmore, Option.isSome_map] at hfuel
          exact ⟨fuel, hfuel⟩

theorem Reached.lt {pos : Nat} (h : Reached items size pos) (hne : items ≠ []) :
    pos < items.length := by
  cases h with
  | start => exact List.length_pos_of_ne_nil hne
  | next _ hmore => exact hmore

/-- All items are seen, each once and in order, just where no page on the way is empty. -/
theorem complete_iff (hne : items ≠ []) :
    (∃ fuel, follow items size fuel 0 = some items) ↔
      ∀ pos, Reached items size pos → 0 < size pos := by
  constructor
  · intro h pos hpos
    obtain ⟨fuel, hfuel⟩ := h
    obtain ⟨fuel', hfuel'⟩ := follow_reached items size (by rw [hfuel]; rfl) hpos
    rw [Nat.pos_iff_ne_zero]
    intro hsize
    rw [follow_stuck items size (hpos.lt items size hne) hsize] at hfuel'
    cases hfuel'
  · intro h
    refine ⟨items.length + 1, ?_⟩
    have hfollow := follow_of_advances items size h .start (Nat.lt_succ_self _)
      (List.length_pos_of_ne_nil hne)
    rwa [List.drop_zero] at hfollow

end JiuwenCore.Pages
