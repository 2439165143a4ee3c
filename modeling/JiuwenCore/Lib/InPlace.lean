import Mathlib.Data.List.Basic

/-!
# Editing a list in place

A loop that looks for the next edit behind a position, makes it, and goes on behind what it
has inserted. What it leaves is what one pass over the list writes: an insertion is never
looked at again.
-/

namespace JiuwenCore.InPlace

universe u

/-- An edit of a list: `length` elements behind the first `offset` ones become `text`. -/
structure Edit (α : Type u) where
  offset : Nat
  length : Nat
  text : List α

/-- A way to find the first edit of a list. An edit takes something out. -/
structure Finder (α : Type u) where
  next : List α → Option (Edit α)
  within : ∀ rest e, next rest = some e → 0 < e.length ∧ e.offset + e.length ≤ rest.length

variable {α : Type u} (F : Finder α)

/-- `list` with `length` elements from `pos` on replaced. -/
def replace (list : List α) (pos length : Nat) (text : List α) : List α :=
  list.take pos ++ text ++ list.drop (pos + length)

/-- The loop, from a position on; `none` where the fuel does not suffice. -/
def editFrom : Nat → List α → Nat → Option (List α)
  | 0, _, _ => none
  | fuel + 1, list, pos =>
      match F.next (list.drop pos) with
      | none => some list
      | some e =>
          editFrom fuel (replace list (pos + e.offset) e.length e.text)
            (pos + e.offset + e.text.length)

/-- One pass: what stands in front of an edit is copied, and the pass goes on behind it. -/
def pass (rest : List α) : List α :=
  match _h : F.next rest with
  | none => rest
  | some e => rest.take e.offset ++ e.text ++ pass (rest.drop (e.offset + e.length))
termination_by rest.length
decreasing_by
  have hwithin := F.within rest e _h
  simp only [List.length_drop]
  omega

theorem pass_none {rest : List α} (h : F.next rest = none) : pass F rest = rest := by
  rw [pass]
  split
  · rfl
  · rename_i hsome
    rw [h] at hsome
    cases hsome

theorem pass_some {rest : List α} {e : Edit α} (h : F.next rest = some e) :
    pass F rest = rest.take e.offset ++ e.text ++ pass F (rest.drop (e.offset + e.length)) := by
  rw [pass]
  split
  · rename_i he
    rw [h] at he
    cases he
  · rename_i e' he
    rw [h] at he
    cases he
    rfl

/-- The edit, seen from one element further in front. -/
def Edit.behind (e : Edit α) : Edit α := { e with offset := e.offset + 1 }

/-- Where the first edit of a list is that of its tail, the pass copies the head. -/
theorem pass_cons {a : α} {rest : List α}
    (h : F.next (a :: rest) = (F.next rest).map Edit.behind) :
    pass F (a :: rest) = a :: pass F rest := by
  cases hnext : F.next rest with
  | none =>
      rw [pass_none F (by rw [h, hnext]; rfl), pass_none F hnext]
  | some e =>
      rw [pass_some F (by rw [h, hnext]; rfl), pass_some F hnext]
      simp [Edit.behind, Nat.add_right_comm]

theorem replace_append (front rest : List α) (e : Edit α) :
    replace (front ++ rest) (front.length + e.offset) e.length e.text =
      (front ++ rest.take e.offset ++ e.text) ++ rest.drop (e.offset + e.length) := by
  have hback : (front ++ rest).drop (front.length + e.offset + e.length) =
      rest.drop (e.offset + e.length) := by
    rw [Nat.add_assoc, List.drop_append, List.drop_eq_nil_of_le (by omega), List.nil_append]
    congr 1
    omega
  rw [replace, List.take_length_add_append, hback]

/-- The loop behind a front leaves the front and writes the pass over the rest. -/
theorem editFrom_eq (fuel : Nat) (front rest : List α) (h : rest.length < fuel) :
    editFrom F fuel (front ++ rest) front.length = some (front ++ pass F rest) := by
  induction fuel generalizing front rest with
  | zero => omega
  | succ fuel ih =>
      rw [editFrom, List.drop_left]
      cases hnext : F.next rest with
      | none =>
          rw [pass_none F hnext]
      | some e =>
          obtain ⟨hpos, hle⟩ := F.within rest e hnext
          have hlength : front.length + e.offset + e.text.length =
              (front ++ rest.take e.offset ++ e.text).length := by
            simp only [List.length_append, List.length_take]
            omega
          have hshort : (rest.drop (e.offset + e.length)).length < fuel := by
            rw [List.length_drop]
            omega
          dsimp only
          rw [replace_append front rest e, hlength, ih _ _ hshort, pass_some F hnext]
          simp only [List.append_assoc]

/-- The loop from the front on ends, with the pass over the whole list. -/
theorem editFrom_zero {fuel : Nat} {list : List α} (h : list.length < fuel) :
    editFrom F fuel list 0 = some (pass F list) :=
  editFrom_eq F fuel [] list h

end JiuwenCore.InPlace
