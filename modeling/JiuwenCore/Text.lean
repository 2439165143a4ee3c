import JiuwenCore.Lib.Utf8
import Mathlib.Data.Nat.Digits.Defs

/-!
# Byte strings

A `std::string` is the list of its bytes. The functions below are the parts of
`std::string` and `std::to_string` the framework computes with; positions are
kept only where the source returns them.
-/

namespace JiuwenCore

/-- A `std::string`: any bytes, not necessarily UTF-8. -/
abbrev Str := List UInt8

instance : LawfulBEq Str := inferInstance

/-- A literal of the source. Every literal that is spelled this way is ASCII. -/
def lit (s : String) : Str := s.toList.map fun c => UInt8.ofNat c.toNat

/-- `std::to_string` of an unsigned integer. -/
def toDecimal (n : Nat) : Str :=
  if n = 0 then [48] else (Nat.digits 10 n).reverse.map fun d => UInt8.ofNat (48 + d)

/-- What a check of the first `n` bytes says of a byte below `n`. -/
theorem byte_below {motive : UInt8 → Prop} {n : Nat} (h : ∀ k : Fin n, motive (UInt8.ofNat k))
    {b : UInt8} (hb : b.toNat < n) : motive b := by
  have hk := h ⟨b.toNat, hb⟩
  rwa [UInt8.ofNat_toNat] at hk

/-! ## Decimal numbers -/

/-- The number a decimal text stands for. -/
def ofDecimal (s : Str) : Nat := Nat.ofDigits 10 (s.reverse.map fun c => c.toNat - 48)

theorem digit_toNat {d : Nat} (h : d < 10) : (UInt8.ofNat (48 + d)).toNat = 48 + d := by
  rw [UInt8.toNat_ofNat']
  omega

theorem ofDecimal_toDecimal (n : Nat) : ofDecimal (toDecimal n) = n := by
  unfold toDecimal
  split
  · rename_i hzero
    rw [hzero]
    rfl
  · have hdigits : (Nat.digits 10 n).map (fun d => (UInt8.ofNat (48 + d)).toNat - 48) =
        Nat.digits 10 n := by
      refine List.map_congr_left (fun d hd => ?_) |>.trans (List.map_id _)
      rw [digit_toNat (Nat.digits_lt_base (by decide) hd), Nat.add_sub_cancel_left]
      rfl
    rw [ofDecimal, ← List.map_reverse, List.reverse_reverse, List.map_map]
    exact (congrArg (Nat.ofDigits 10) hdigits).trans (Nat.ofDigits_digits 10 n)

theorem toDecimal_injective : Function.Injective toDecimal :=
  Function.LeftInverse.injective ofDecimal_toDecimal

theorem toDecimal_range (n : Nat) : ∀ b ∈ toDecimal n, 48 ≤ b.toNat ∧ b.toNat ≤ 57 := by
  unfold toDecimal
  split
  · decide
  · intro b hb
    rcases List.mem_map.mp hb with ⟨d, hd, rfl⟩
    have hlt : d < 10 := Nat.digits_lt_base (by decide) (List.mem_reverse.mp hd)
    rw [digit_toNat hlt]
    omega

theorem underscore_not_mem_toDecimal (n : Nat) : 95 ∉ toDecimal n := by
  intro hmem
  have hrange := (toDecimal_range n 95 hmem).2
  revert hrange
  decide

/-! ## Roles of a message -/

namespace Role

def user : Str := lit "user"
def assistant : Str := lit "assistant"
def tool : Str := lit "tool"
def system : Str := lit "system"

@[simp] theorem user_ne_assistant : user ≠ assistant := by decide
@[simp] theorem user_ne_tool : user ≠ tool := by decide
@[simp] theorem user_ne_system : user ≠ system := by decide
@[simp] theorem assistant_ne_user : assistant ≠ user := by decide
@[simp] theorem assistant_ne_tool : assistant ≠ tool := by decide
@[simp] theorem assistant_ne_system : assistant ≠ system := by decide
@[simp] theorem tool_ne_user : tool ≠ user := by decide
@[simp] theorem tool_ne_assistant : tool ≠ assistant := by decide
@[simp] theorem tool_ne_system : tool ≠ system := by decide
@[simp] theorem system_ne_user : system ≠ user := by decide
@[simp] theorem system_ne_assistant : system ≠ assistant := by decide
@[simp] theorem system_ne_tool : system ≠ tool := by decide

end Role

end JiuwenCore
