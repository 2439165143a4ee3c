import Mathlib.Data.UInt

/-!
# UTF-8

The byte sequences of RFC 3629: a text is a sequence of characters of one to four
bytes, without overlong forms, surrogates and code points above U+10FFFF.
-/

namespace JiuwenCore.Utf8

/-- What holds of all bytes of a list is tested on the list, not on all bytes. -/
instance decidableForallByte (p : UInt8 → Prop) [DecidablePred p] (s : List UInt8) :
    Decidable (∀ b ∈ s, p b) :=
  List.decidableBAll p s

/-- A continuation byte. -/
def Tail (b : UInt8) : Prop := 0x80 ≤ b ∧ b ≤ 0xBF

instance (b : UInt8) : Decidable (Tail b) := inferInstanceAs (Decidable (_ ∧ _))

/-- The bytes of one character. The second byte of the least and the greatest
leads is bounded further. -/
inductive Char : List UInt8 → Prop
  | one {a : UInt8} : a ≤ 0x7F → Char [a]
  | two {a b : UInt8} : 0xC2 ≤ a → a ≤ 0xDF → Tail b → Char [a, b]
  | three {a b c : UInt8} : 0xE0 ≤ a → a ≤ 0xEF → Tail b → (a = 0xE0 → 0xA0 ≤ b) →
      (a = 0xED → b ≤ 0x9F) → Tail c → Char [a, b, c]
  | four {a b c d : UInt8} : 0xF0 ≤ a → a ≤ 0xF4 → Tail b → (a = 0xF0 → 0x90 ≤ b) →
      (a = 0xF4 → b ≤ 0x8F) → Tail c → Tail d → Char [a, b, c, d]

inductive Text : List UInt8 → Prop
  | nil : Text []
  | cons {c rest : List UInt8} : Char c → Text rest → Text (c ++ rest)

/-! ## Cutting and joining -/

theorem Char.of_ascii {a : UInt8} {c : List UInt8} (h : Char (a :: c)) (ha : a ≤ 0x7F) :
    c = [] := by
  have hlead {low : UInt8} (hlow : 0x7F < low) (hge : low ≤ a) : False :=
    UInt8.not_le.mpr hlow (UInt8.le_trans hge ha)
  cases h with
  | one _ => rfl
  | two h₁ _ _ => exact (hlead (by decide) h₁).elim
  | three h₁ _ _ _ _ _ => exact (hlead (by decide) h₁).elim
  | four h₁ _ _ _ _ _ _ => exact (hlead (by decide) h₁).elim

theorem Tail.not_ascii {b : UInt8} (h : Tail b) : 0x7F < b :=
  UInt8.lt_of_lt_of_le (by decide) h.1

/-- Behind the lead of a character only continuation bytes stand, and the lead is none. -/
theorem Char.lead_and_tails {a : UInt8} {c : List UInt8} (h : Char (a :: c)) :
    ¬ Tail a ∧ ∀ b ∈ c, Tail b := by
  have hlead {low : UInt8} (hlow : 0xBF < low) (hge : low ≤ a) : ¬ Tail a := fun ht =>
    UInt8.not_le.mpr hlow (UInt8.le_trans hge ht.2)
  cases h with
  | one ha => exact ⟨fun ht => UInt8.not_le.mpr ht.not_ascii ha, by simp⟩
  | two h₁ _ hb => exact ⟨hlead (by decide) h₁, by simp [hb]⟩
  | three h₁ _ hb _ _ hc => exact ⟨hlead (by decide) h₁, by simp [hb, hc]⟩
  | four h₁ _ hb _ _ hc hd => exact ⟨hlead (by decide) h₁, by simp [hb, hc, hd]⟩

theorem Char.tail_not_ascii {a : UInt8} {c : List UInt8} (h : Char (a :: c)) :
    ∀ b ∈ c, 0x7F < b := by
  cases h with
  | one _ => simp
  | two _ _ h₁ => simp [h₁.not_ascii]
  | three _ _ h₁ _ _ h₂ => simp [h₁.not_ascii, h₂.not_ascii]
  | four _ _ h₁ _ _ h₂ h₃ => simp [h₁.not_ascii, h₂.not_ascii, h₃.not_ascii]

theorem Text.of_char {c : List UInt8} (h : Char c) : Text c := by
  have htext : Text (c ++ []) := .cons h .nil
  rwa [List.append_nil] at htext

theorem Text.append {s t : List UInt8} (hs : Text s) (ht : Text t) : Text (s ++ t) := by
  induction hs with
  | nil => exact ht
  | cons hc _ ih =>
      rw [List.append_assoc]
      exact .cons hc ih

/-- A text can be cut in front of an ASCII byte. -/
theorem Text.cut {u : List UInt8} (h : Text u) {s : List UInt8} {b : UInt8} {t : List UInt8}
    (hu : u = s ++ b :: t) (hb : b ≤ 0x7F) : Text s ∧ Text t := by
  induction h generalizing s with
  | nil => simp at hu
  | @cons c rest hc hrest ih =>
      rcases List.append_eq_append_iff.mp hu with ⟨s', rfl, hs'⟩ | ⟨c', hcut, hbt⟩
      · have hparts := ih hs'
        exact ⟨Text.append (.of_char hc) hparts.1, hparts.2⟩
      · cases c' with
        | nil =>
            rw [List.append_nil] at hcut
            have hparts := ih (s := []) hbt.symm
            exact ⟨hcut ▸ .of_char hc, hparts.2⟩
        | cons b' c' =>
            rw [List.cons_append, List.cons.injEq] at hbt
            rcases hbt with ⟨rfl, hbt⟩
            -- the ASCII byte leads the character, since a character has none behind its lead
            cases s with
            | nil =>
                rw [List.nil_append] at hcut
                subst hcut
                have hnil : c' = [] := hc.of_ascii hb
                rw [hnil, List.nil_append] at hbt
                exact ⟨.nil, hbt ▸ hrest⟩
            | cons a s =>
                rw [List.cons_append] at hcut
                subst hcut
                exact absurd hb (UInt8.not_le.mpr (hc.tail_not_ascii b (by simp)))

theorem Text.append_ascii_iff {s : List UInt8} {b : UInt8} {t : List UInt8} (hb : b ≤ 0x7F) :
    Text (s ++ b :: t) ↔ Text s ∧ Text t :=
  ⟨fun h => h.cut rfl hb, fun h => h.1.append (.cons (.one hb) h.2)⟩

/-- Only ASCII bytes. -/
def Ascii (s : List UInt8) : Prop := ∀ b ∈ s, b ≤ 0x7F

instance (s : List UInt8) : Decidable (Ascii s) := inferInstanceAs (Decidable (∀ b ∈ s, b ≤ 0x7F))

theorem Ascii.append_iff {a : List UInt8} (ha : Ascii a) {t : List UInt8} :
    Text (a ++ t) ↔ Text t := by
  induction a with
  | nil => rfl
  | cons b a ih =>
      have hb : b ≤ 0x7F := ha b List.mem_cons_self
      have hcut : Text ([] ++ b :: (a ++ t)) ↔ Text [] ∧ Text (a ++ t) :=
        Text.append_ascii_iff hb
      rw [List.cons_append, ← ih fun x hx => ha x (List.mem_cons_of_mem b hx)]
      exact hcut.trans (and_iff_right .nil)

theorem Ascii.text {a : List UInt8} (ha : Ascii a) : Text a := by
  have h := ha.append_iff.mpr .nil
  rwa [List.append_nil] at h

/-- ASCII separates texts. -/
theorem Ascii.between_iff {a : List UInt8} (ha : Ascii a) (hne : a ≠ []) {s t : List UInt8} :
    Text (s ++ (a ++ t)) ↔ Text s ∧ Text t := by
  cases a with
  | nil => exact absurd rfl hne
  | cons b a =>
      have htail : Ascii a := fun x hx => ha x (List.mem_cons_of_mem b hx)
      rw [List.cons_append, Text.append_ascii_iff (ha b List.mem_cons_self), htail.append_iff]

end JiuwenCore.Utf8
