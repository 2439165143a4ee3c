import JiuwenCore.Lib.Utf8
import JiuwenCore.Text

/-!
# Repairing UTF-8

`FixStringUTF8` replaces every byte that starts no character by U+FFFD. Its output
is a UTF-8 text, and a UTF-8 text is left as it is, also between damaged parts.
-/

namespace JiuwenCore

/-- U+FFFD. -/
def kReplacement : Str := [0xEF, 0xBF, 0xBD]

/-- What a lead byte promises: the length of its sequence, and the least and the
greatest second byte. -/
structure Lead where
  expectedLength : Nat
  minSecond : UInt8 := 0x80
  maxSecond : UInt8 := 0xBF

/-- The lead bytes of more than one byte; none for a stray continuation byte, an
overlong lead and a lead out of range. -/
def leadByte (c : UInt8) : Option Lead :=
  if 0xC2 ≤ c ∧ c ≤ 0xDF then some { expectedLength := 2 }
  else if 0xE0 ≤ c ∧ c ≤ 0xEF then
    some { expectedLength := 3
           minSecond := if c = 0xE0 then 0xA0 else 0x80
           maxSecond := if c = 0xED then 0x9F else 0xBF }
  else if 0xF0 ≤ c ∧ c ≤ 0xF4 then
    some { expectedLength := 4
           minSecond := if c = 0xF0 then 0x90 else 0x80
           maxSecond := if c = 0xF4 then 0x8F else 0xBF }
  else none

def isCont (c : UInt8) : Bool := c &&& 0xC0 = 0x80

/-- Whether the bytes behind the lead complete its sequence. -/
def Lead.completedBy (lead : Lead) : Str → Bool
  | [] => false
  | b2 :: tail =>
      lead.expectedLength ≤ tail.length + 2 && (lead.minSecond ≤ b2 && b2 ≤ lead.maxSecond) &&
        (tail.take (lead.expectedLength - 2)).all isCont

/-- The length of the character at the front, 0 where there is none. -/
def sequenceLength : Str → Nat
  | [] => 0
  | c :: rest =>
      if c ≤ 0x7F then 1
      else
        match leadByte c with
        | some lead => if lead.completedBy rest then lead.expectedLength else 0
        | none => 0

/-- The loop of `FixStringUTF8`, where `pending` bytes of a character are still to
be copied. -/
def fixFrom : Nat → Str → Str
  | _, [] => []
  | pending + 1, c :: rest => c :: fixFrom pending rest
  | 0, c :: rest =>
      match sequenceLength (c :: rest) with
      | 0 => kReplacement ++ fixFrom 0 rest
      | n + 1 => c :: fixFrom n rest

def fixStringUTF8 (str : Str) : Str := fixFrom 0 str

/-! ## The character at the front -/

theorem isCont_iff (c : UInt8) : isCont c = true ↔ Utf8.Tail c := by
  have hall : ∀ b : BitVec 8, (b &&& 0xC0 = 0x80) ↔ 0x80 ≤ b ∧ b ≤ 0xBF := by decide
  have hc := hall c.toBitVec
  unfold isCont Utf8.Tail
  rw [decide_eq_true_eq, ← UInt8.toBitVec_inj, UInt8.le_iff_toBitVec_le,
    UInt8.le_iff_toBitVec_le]
  exact hc

theorem lower_bound_iff {p : Prop} [Decidable p] {low b : UInt8} (hlow : 0x80 ≤ low) :
    (if p then low else 0x80) ≤ b ↔ 0x80 ≤ b ∧ (p → low ≤ b) := by
  split
  · rename_i hp
    exact ⟨fun h => ⟨UInt8.le_trans hlow h, fun _ => h⟩, fun h => h.2 hp⟩
  · rename_i hp
    exact ⟨fun h => ⟨h, fun hp' => absurd hp' hp⟩, fun h => h.1⟩

theorem upper_bound_iff {p : Prop} [Decidable p] {high b : UInt8} (hhigh : high ≤ 0xBF) :
    (b ≤ if p then high else 0xBF) ↔ b ≤ 0xBF ∧ (p → b ≤ high) := by
  split
  · rename_i hp
    exact ⟨fun h => ⟨UInt8.le_trans h hhigh, fun _ => h⟩, fun h => h.2 hp⟩
  · rename_i hp
    exact ⟨fun h => ⟨h, fun hp' => absurd hp' hp⟩, fun h => h.1⟩

/-- The bytes that complete a lead make a character with it. -/
theorem Lead.completedBy_char {c : UInt8} {lead : Lead} {rest : Str}
    (hlead : leadByte c = some lead) (h : lead.completedBy rest) :
    ∃ bytes tail, rest = bytes ++ tail ∧ bytes.length + 1 = lead.expectedLength ∧
      Utf8.Char (c :: bytes) := by
  match rest with
  | [] => cases h
  | b2 :: tail =>
      simp only [Lead.completedBy, Bool.and_eq_true, decide_eq_true_eq] at h
      rcases h with ⟨⟨hlength, hmin, hmax⟩, hcont⟩
      unfold leadByte at hlead
      split at hlead
      · rename_i htwo
        cases hlead
        exact ⟨[b2], tail, rfl, rfl, .two htwo.1 htwo.2 ⟨hmin, hmax⟩⟩
      · split at hlead
        · rename_i hthree
          cases hlead
          obtain ⟨hmin, hoverlong⟩ := (lower_bound_iff (by decide)).mp hmin
          obtain ⟨hmax, hsurrogate⟩ := (upper_bound_iff (by decide)).mp hmax
          match tail with
          | [] => simp at hlength
          | b3 :: tail =>
              simp only [List.take_succ_cons, List.take_zero, List.all_cons,
                List.all_nil, Bool.and_true, isCont_iff] at hcont
              exact ⟨[b2, b3], tail, rfl, rfl,
                .three hthree.1 hthree.2 ⟨hmin, hmax⟩ hoverlong hsurrogate hcont⟩
        · split at hlead
          · rename_i hfour
            cases hlead
            obtain ⟨hmin, hoverlong⟩ := (lower_bound_iff (by decide)).mp hmin
            obtain ⟨hmax, hrange⟩ := (upper_bound_iff (by decide)).mp hmax
            match tail with
            | [] => simp at hlength
            | [_] => simp at hlength
            | b3 :: b4 :: tail =>
                simp only [Nat.reduceSub, List.take_succ_cons, List.take_zero, List.all_cons,
                  List.all_nil, Bool.and_true, Bool.and_eq_true, isCont_iff] at hcont
                exact ⟨[b2, b3, b4], tail, rfl, rfl,
                  .four hfour.1 hfour.2 ⟨hmin, hmax⟩ hoverlong hrange hcont.1 hcont.2⟩
          · cases hlead

theorem leadByte_three {c : UInt8} (h : 0xE0 ≤ c ∧ c ≤ 0xEF) :
    leadByte c = some
      { expectedLength := 3
        minSecond := if c = 0xE0 then 0xA0 else 0x80
        maxSecond := if c = 0xED then 0x9F else 0xBF } := by
  have htwo : ¬ (0xC2 ≤ c ∧ c ≤ 0xDF) := fun h' => absurd (UInt8.le_trans h.1 h'.2) (by decide)
  rw [leadByte, if_neg htwo, if_pos h]

theorem leadByte_four {c : UInt8} (h : 0xF0 ≤ c ∧ c ≤ 0xF4) :
    leadByte c = some
      { expectedLength := 4
        minSecond := if c = 0xF0 then 0x90 else 0x80
        maxSecond := if c = 0xF4 then 0x8F else 0xBF } := by
  have htwo : ¬ (0xC2 ≤ c ∧ c ≤ 0xDF) := fun h' => absurd (UInt8.le_trans h.1 h'.2) (by decide)
  have hthree : ¬ (0xE0 ≤ c ∧ c ≤ 0xEF) := fun h' =>
    absurd (UInt8.le_trans h.1 h'.2) (by decide)
  rw [leadByte, if_neg htwo, if_neg hthree, if_pos h]

theorem not_ascii {c low : UInt8} (hlow : 0x7F < low) (h : low ≤ c) : ¬ c ≤ 0x7F :=
  fun hc => absurd (UInt8.le_trans h hc) (UInt8.not_le.mpr hlow)

/-- A character at the front is found, whatever follows it. -/
theorem sequenceLength_char {c : Str} (h : Utf8.Char c) (rest : Str) :
    sequenceLength (c ++ rest) = c.length := by
  cases h with
  | one ha => exact if_pos ha
  | @two a b h₁ h₂ hb =>
      have hlead : leadByte a = some { expectedLength := 2 } := if_pos ⟨h₁, h₂⟩
      simp [sequenceLength, not_ascii (by decide) h₁, hlead, Lead.completedBy, hb.1, hb.2]
  | @three a b d h₁ h₂ hb hoverlong hsurrogate hd =>
      have hmin : (if a = 0xE0 then 0xA0 else 0x80) ≤ b :=
        (lower_bound_iff (by decide)).mpr ⟨hb.1, hoverlong⟩
      have hmax : b ≤ if a = 0xED then 0x9F else 0xBF :=
        (upper_bound_iff (by decide)).mpr ⟨hb.2, hsurrogate⟩
      simp [sequenceLength, not_ascii (by decide) h₁, leadByte_three ⟨h₁, h₂⟩, Lead.completedBy,
        hmin, hmax, (isCont_iff d).mpr hd]
  | @four a b d e h₁ h₂ hb hoverlong hrange hd he =>
      have hmin : (if a = 0xF0 then 0x90 else 0x80) ≤ b :=
        (lower_bound_iff (by decide)).mpr ⟨hb.1, hoverlong⟩
      have hmax : b ≤ if a = 0xF4 then 0x8F else 0xBF :=
        (upper_bound_iff (by decide)).mpr ⟨hb.2, hrange⟩
      simp [sequenceLength, not_ascii (by decide) h₁, leadByte_four ⟨h₁, h₂⟩, Lead.completedBy,
        hmin, hmax, (isCont_iff d).mpr hd, (isCont_iff e).mpr he]

/-- A positive length is that of a character at the front. -/
theorem sequenceLength_spec {c : UInt8} {rest : Str} {n : Nat}
    (h : sequenceLength (c :: rest) = n + 1) :
    ∃ bytes tail, rest = bytes ++ tail ∧ bytes.length = n ∧ Utf8.Char (c :: bytes) := by
  rw [sequenceLength] at h
  by_cases hascii : c ≤ 0x7F
  · rw [if_pos hascii] at h
    exact ⟨[], rest, rfl, Nat.succ.inj h, .one hascii⟩
  · rw [if_neg hascii] at h
    cases hlead : leadByte c with
    | none =>
        rw [hlead] at h
        cases h
    | some lead =>
        rw [hlead] at h
        simp only at h
        split at h
        · rename_i hdone
          obtain ⟨bytes, tail, hrest, hlength, hchar⟩ := lead.completedBy_char hlead hdone
          exact ⟨bytes, tail, hrest, by omega, hchar⟩
        · cases h

/-! ## The repaired text -/

theorem fixFrom_append (bytes tail : Str) :
    fixFrom bytes.length (bytes ++ tail) = bytes ++ fixStringUTF8 tail := by
  induction bytes with
  | nil => rfl
  | cons b bytes ih => exact congrArg (b :: ·) ih

theorem fixStringUTF8_char {c : Str} (h : Utf8.Char c) (rest : Str) :
    fixStringUTF8 (c ++ rest) = c ++ fixStringUTF8 rest := by
  have hlength := sequenceLength_char h rest
  match c with
  | [] => cases h
  | b :: bytes =>
      rw [List.cons_append] at hlength
      rw [fixStringUTF8, List.cons_append, fixFrom, hlength]
      exact congrArg (b :: ·) (fixFrom_append bytes rest)

theorem fixStringUTF8_invalid {c : UInt8} {rest : Str} (h : sequenceLength (c :: rest) = 0) :
    fixStringUTF8 (c :: rest) = kReplacement ++ fixStringUTF8 rest := by
  rw [fixStringUTF8, fixFrom, h]
  rfl

/-- The output is UTF-8. -/
theorem fixStringUTF8_text (str : Str) : Utf8.Text (fixStringUTF8 str) := by
  match str with
  | [] => exact .nil
  | c :: rest =>
      cases hlength : sequenceLength (c :: rest) with
      | zero =>
          have hreplacement : Utf8.Char kReplacement :=
            .three (by decide) (by decide) (by decide) (by decide) (by decide) (by decide)
          rw [fixStringUTF8_invalid hlength]
          exact .cons hreplacement (fixStringUTF8_text rest)
      | succ n =>
          obtain ⟨bytes, tail, rfl, _, hchar⟩ := sequenceLength_spec hlength
          rw [← List.cons_append, fixStringUTF8_char hchar]
          exact .cons hchar (fixStringUTF8_text tail)
termination_by str.length

/-- A UTF-8 text is not changed. -/
theorem fixStringUTF8_of_text {str : Str} (h : Utf8.Text str) : fixStringUTF8 str = str := by
  induction h with
  | nil => rfl
  | cons hc _ ih => rw [fixStringUTF8_char hc, ih]

theorem fixStringUTF8_eq_iff (str : Str) : fixStringUTF8 str = str ↔ Utf8.Text str :=
  ⟨fun h => h ▸ fixStringUTF8_text str, fixStringUTF8_of_text⟩

/-! ## Damage stays where it is -/

/-- No continuation byte comes first. -/
def Settled (t : Str) : Prop := ∀ b ∈ t.head?, ¬ Utf8.Tail b

/-- What is no character stays none, if what follows does not continue it. -/
theorem sequenceLength_append {c : UInt8} {rest t : Str} (h : sequenceLength (c :: rest) = 0)
    (ht : Settled t) : sequenceLength (c :: (rest ++ t)) = 0 := by
  cases hlength : sequenceLength (c :: (rest ++ t)) with
  | zero => rfl
  | succ n =>
      obtain ⟨bytes, tail, hcut, _, hchar⟩ := sequenceLength_spec hlength
      rcases List.append_eq_append_iff.mp hcut with ⟨more, rfl, hmore⟩ | ⟨more, rfl, _⟩
      · cases more with
        | nil =>
            rw [List.append_nil] at hchar
            have hwhole := sequenceLength_char hchar []
            rw [List.append_nil, h] at hwhole
            cases hwhole
        | cons b more =>
            -- the character ends in the text that follows, whose first byte is no continuation
            have hfirst : b ∈ t.head? := by simp [hmore]
            exact absurd (hchar.lead_and_tails.2 b (by simp)) (ht b hfirst)
      · have hinner := sequenceLength_char hchar more
        rw [List.cons_append, h] at hinner
        cases hinner

theorem fixStringUTF8_append (str : Str) {t : Str} (ht : Settled t) :
    fixStringUTF8 (str ++ t) = fixStringUTF8 str ++ fixStringUTF8 t := by
  match str with
  | [] => rfl
  | c :: rest =>
      cases hlength : sequenceLength (c :: rest) with
      | zero =>
          rw [List.cons_append, fixStringUTF8_invalid (sequenceLength_append hlength ht),
            fixStringUTF8_invalid hlength, fixStringUTF8_append rest ht, List.append_assoc]
      | succ n =>
          obtain ⟨bytes, tail, rfl, _, hchar⟩ := sequenceLength_spec hlength
          have hwhole : (c :: (bytes ++ tail)) ++ t = (c :: bytes) ++ (tail ++ t) := by simp
          rw [hwhole, fixStringUTF8_char hchar, fixStringUTF8_append tail ht, ← List.cons_append,
            fixStringUTF8_char hchar, List.append_assoc]
termination_by str.length

/-- A text in front is copied, whatever follows it. -/
theorem fixStringUTF8_text_append {c : Str} (hc : Utf8.Text c) (rest : Str) :
    fixStringUTF8 (c ++ rest) = c ++ fixStringUTF8 rest := by
  induction hc with
  | nil => rfl
  | cons hchar _ ih => rw [List.append_assoc, fixStringUTF8_char hchar, ih, List.append_assoc]

theorem settled_text {c : Str} (hc : Utf8.Text c) (hne : c ≠ []) (rest : Str) :
    Settled (c ++ rest) := by
  cases hc with
  | nil => exact absurd rfl hne
  | @cons first more hchar _ =>
      cases first with
      | nil => cases hchar
      | cons b bytes =>
          intro b' hb'
          obtain rfl : b = b' := by simpa using hb'
          exact hchar.lead_and_tails.1

/-- The output is UTF-8, a UTF-8 text is not changed, and between damaged parts nothing
valid is lost. -/
theorem fixStringUTF8_repairs :
    (∀ str, Utf8.Text (fixStringUTF8 str)) ∧
    (∀ str, Utf8.Text str → fixStringUTF8 str = str) ∧
    (∀ str, fixStringUTF8 (fixStringUTF8 str) = fixStringUTF8 str) ∧
    ∀ a c b, Utf8.Text c → c ≠ [] →
      fixStringUTF8 (a ++ c ++ b) = fixStringUTF8 a ++ c ++ fixStringUTF8 b := by
  refine ⟨fixStringUTF8_text, fun _ => fixStringUTF8_of_text, fun str => ?_, ?_⟩
  · exact fixStringUTF8_of_text (fixStringUTF8_text str)
  · intro a c b hc hne
    rw [List.append_assoc, fixStringUTF8_append a (settled_text hc hne b),
      fixStringUTF8_text_append hc, List.append_assoc]

instance (str : Str) : Decidable (Utf8.Text str) := decidable_of_iff _ (fixStringUTF8_eq_iff str)

/-- A cut character before a text, and a stray byte behind it. -/
theorem fixStringUTF8_repairs_cut :
    fixStringUTF8 ([0xE4, 0xB8] ++ lit "X" ++ [0x80]) =
      fixStringUTF8 [0xE4, 0xB8] ++ lit "X" ++ fixStringUTF8 [0x80] :=
  fixStringUTF8_repairs.2.2.2 _ _ _ (by decide) (by decide)

end JiuwenCore
