import Mathlib.Data.List.Basic
import Mathlib.Data.Nat.Digits.Defs

/-!
# The concrete syntax of JSON

Texts as the grammar has them, with the white space and the spelling of every string and
number. A tree has one text and one value; the text of a string is never shorter than what it
stands for, and as long only where nothing in it is a `\u` escape.

Whether the bytes from 128 on are UTF-8 is not asked.
-/

namespace JiuwenCore.JsonSyntax

/-! ## White space and digits -/

abbrev Bytes := List UInt8

def IsBlank (b : UInt8) : Prop := b = 32 ∨ b = 9 ∨ b = 10 ∨ b = 13

def Blanks := { s : Bytes // ∀ b ∈ s, IsBlank b }

def Blanks.none : Blanks := ⟨[], fun _ hb => absurd hb List.not_mem_nil⟩

def Blanks.space : Blanks := ⟨[32], fun _ hb => .inl (List.mem_singleton.mp hb)⟩

def Digits := { s : Bytes // s ≠ [] ∧ ∀ b ∈ s, 48 ≤ b ∧ b ≤ 57 }

def Digits.value (digits : Digits) : Nat :=
  Nat.ofDigits 10 (digits.1.reverse.map fun c => c.toNat - 48)

/-! ## Strings -/

/-- A hexadecimal digit of either case. -/
structure HexDigit where
  byte : UInt8
  isHex : 48 ≤ byte ∧ byte ≤ 57 ∨ 65 ≤ byte ∧ byte ≤ 70 ∨ 97 ≤ byte ∧ byte ≤ 102

def HexDigit.value (digit : HexDigit) : Nat :=
  if digit.byte ≤ 57 then digit.byte.toNat - 48
  else if digit.byte ≤ 70 then digit.byte.toNat - 55
  else digit.byte.toNat - 87

/-- The four digits behind `\u`. -/
structure CodeUnit where
  first : HexDigit
  second : HexDigit
  third : HexDigit
  fourth : HexDigit

namespace CodeUnit

def text (unit : CodeUnit) : Bytes :=
  [unit.first.byte, unit.second.byte, unit.third.byte, unit.fourth.byte]

def value (unit : CodeUnit) : Nat :=
  ((unit.first.value * 16 + unit.second.value) * 16 + unit.third.value) * 16 + unit.fourth.value

def High (unit : CodeUnit) : Prop := 0xD800 ≤ unit.value ∧ unit.value < 0xDC00

def Low (unit : CodeUnit) : Prop := 0xDC00 ≤ unit.value ∧ unit.value < 0xE000

end CodeUnit

/-- The bytes of a code point. -/
def utf8 (n : Nat) : Bytes :=
  if n < 0x80 then [UInt8.ofNat n]
  else if n < 0x800 then [UInt8.ofNat (0xC0 + n / 64), UInt8.ofNat (0x80 + n % 64)]
  else if n < 0x10000 then
    [UInt8.ofNat (0xE0 + n / 4096), UInt8.ofNat (0x80 + n / 64 % 64), UInt8.ofNat (0x80 + n % 64)]
  else
    [UInt8.ofNat (0xF0 + n / 262144), UInt8.ofNat (0x80 + n / 4096 % 64),
      UInt8.ofNat (0x80 + n / 64 % 64), UInt8.ofNat (0x80 + n % 64)]

theorem length_utf8_le (n : Nat) : (utf8 n).length ≤ 4 := by
  unfold utf8
  split
  · simp
  · split
    · simp
    · split <;> simp

/-- The escapes of one letter. -/
inductive ShortEscape
  | quote | backslash | slash | backspace | formFeed | lineFeed | carriageReturn | tab
  deriving DecidableEq

namespace ShortEscape

def letter : ShortEscape → UInt8
  | quote => 34
  | backslash => 92
  | slash => 47
  | backspace => 98
  | formFeed => 102
  | lineFeed => 110
  | carriageReturn => 114
  | tab => 116

def byte : ShortEscape → UInt8
  | quote => 34
  | backslash => 92
  | slash => 47
  | backspace => 8
  | formFeed => 12
  | lineFeed => 10
  | carriageReturn => 13
  | tab => 9

end ShortEscape

/-- One character of a string, or one byte of it. -/
inductive Piece
  | plain (b : UInt8) (h : 32 ≤ b ∧ b ≠ 34 ∧ b ≠ 92)
  | short (escape : ShortEscape)
  | unit (unit : CodeUnit) (h : ¬ unit.High ∧ ¬ unit.Low)
  | pair (high low : CodeUnit) (h : high.High ∧ low.Low)

namespace Piece

def text : Piece → Bytes
  | plain b _ => [b]
  | short escape => [92, escape.letter]
  | unit u _ => 92 :: 117 :: u.text
  | pair high low _ => 92 :: 117 :: (high.text ++ 92 :: 117 :: low.text)

def decoded : Piece → Bytes
  | plain b _ => [b]
  | short escape => [escape.byte]
  | unit u _ => utf8 u.value
  | pair high low _ => utf8 (0x10000 + (high.value - 0xD800) * 1024 + (low.value - 0xDC00))

/-- The letter behind the backslash. -/
def escapeLetter : Piece → Option UInt8
  | plain _ _ => none
  | short escape => some escape.letter
  | unit _ _ => some 117
  | pair _ _ _ => some 117

end Piece

abbrev Pieces := List Piece

def Pieces.text (pieces : Pieces) : Bytes := pieces.flatMap Piece.text

def Pieces.decoded (pieces : Pieces) : Bytes := pieces.flatMap Piece.decoded

/-- The string has no escapes but those of the given letters. -/
def Pieces.Escapes (pieces : Pieces) (letters : Bytes) : Prop :=
  ∀ piece ∈ pieces, ∀ c ∈ piece.escapeLetter, c ∈ letters

instance (pieces : Pieces) (letters : Bytes) : Decidable (pieces.Escapes letters) :=
  inferInstanceAs (Decidable (∀ piece ∈ pieces, ∀ c ∈ piece.escapeLetter, c ∈ letters))

theorem length_flatMap_le {α β : Type*} {f g : α → List β} {l : List α}
    (h : ∀ a ∈ l, (g a).length ≤ (f a).length) : (l.flatMap g).length ≤ (l.flatMap f).length := by
  induction l with
  | nil => simp
  | cons a l ih =>
      have hhead := h a List.mem_cons_self
      have htail := ih fun b hb => h b (List.mem_cons_of_mem a hb)
      simp only [List.flatMap_cons, List.length_append]
      omega

/-- Texts that are made piece by piece, none shorter than its counterpart, are the same only
where every piece has the same text. -/
theorem flatMap_eq_iff {α β : Type*} {f g : α → List β} {l : List α}
    (h : ∀ a ∈ l, (g a).length ≤ (f a).length) :
    l.flatMap f = l.flatMap g ↔ ∀ a ∈ l, f a = g a := by
  constructor
  · intro heq
    induction l with
    | nil => simp
    | cons a l ih =>
        have hhead := h a List.mem_cons_self
        have htail := length_flatMap_le fun b hb => h b (List.mem_cons_of_mem a hb)
        have htotal := congrArg List.length heq
        simp only [List.flatMap_cons] at heq htotal
        simp only [List.length_append] at htotal
        obtain ⟨hfirst, hrest⟩ := List.append_inj heq (by omega)
        intro b hb
        rcases List.mem_cons.mp hb with rfl | hb
        · exact hfirst
        · exact ih (fun b hb => h b (List.mem_cons_of_mem a hb)) hrest b hb
  · exact fun heq => List.flatMap_congr heq

theorem utf8_ne_nil (n : Nat) : utf8 n ≠ [] := by
  unfold utf8
  split
  · simp
  · split
    · simp
    · split <;> simp

theorem Pieces.decoded_eq_nil_iff (pieces : Pieces) : pieces.decoded = [] ↔ pieces = [] := by
  have hpiece : ∀ piece : Piece, piece.decoded ≠ [] := by
    intro piece
    cases piece with
    | plain b h => simp [Piece.decoded]
    | short escape => simp [Piece.decoded]
    | unit u h => exact utf8_ne_nil _
    | pair high low h => exact utf8_ne_nil _
  cases pieces with
  | nil => simp [Pieces.decoded]
  | cons piece pieces => simp [Pieces.decoded, hpiece piece]

/-- The string of bytes that need no escape; a byte that does is left out. -/
def Pieces.ofBytes (s : Bytes) : Pieces :=
  s.filterMap fun b =>
    if h : 32 ≤ b ∧ b ≠ 34 ∧ b ≠ 92 then some (.plain b h) else none

/-! ## Numbers -/

structure Exponent where
  upper : Bool
  sign : Option Bool
  digits : Digits

structure Number where
  negative : Bool
  whole : Digits
  noLeadingZero : whole.1.head? = some 48 → whole.1 = [48]
  fraction : Option Digits
  exponent : Option Exponent

namespace Number

def exponentText : Option Exponent → Bytes
  | none => []
  | some e =>
      (if e.upper then 69 else 101) ::
        ((match e.sign with
          | none => []
          | some plus => [if plus then 43 else 45]) ++ e.digits.1)

def fractionText : Option Digits → Bytes
  | none => []
  | some digits => 46 :: digits.1

def text (n : Number) : Bytes :=
  (if n.negative then [45] else []) ++ n.whole.1 ++ fractionText n.fraction ++
    exponentText n.exponent

/-- The part in front of the fraction. -/
def wholePart (n : Number) : Int := (if n.negative then -1 else 1) * n.whole.value

/-- The number as an integer; a number with a fraction or an exponent is none. -/
def integer (n : Number) : Option Int :=
  match n.fraction, n.exponent with
  | none, none => some n.wholePart
  | _, _ => none

theorem integer_eq_some {n : Number} {i : Int} (h : n.integer = some i) : i = n.wholePart := by
  rw [integer] at h
  split at h
  · exact (Option.some.inj h).symm
  · cases h

end Number

/-! ## Values and texts -/

/-- A member of an object, with the white space around its tokens. -/
structure MemberOf (V : Type) where
  before : Blanks
  name : Pieces
  beforeColon : Blanks
  afterColon : Blanks
  value : V
  after : Blanks

/-- A value as it is written. -/
inductive Value
  | null
  | bool (b : Bool)
  | number (n : Number)
  | string (s : Pieces)
  | array (inner : Blanks) (items : List (Blanks × Value × Blanks))
  | object (inner : Blanks) (members : List (MemberOf Value))

abbrev Member := MemberOf Value

mutual

def Value.text : Value → Bytes
  | .null => [110, 117, 108, 108]
  | .bool true => [116, 114, 117, 101]
  | .bool false => [102, 97, 108, 115, 101]
  | .number n => n.text
  | .string s => 34 :: (s.text ++ [34])
  | .array inner items => 91 :: (inner.1 ++ itemsText items ++ [93])
  | .object inner members => 123 :: (inner.1 ++ membersText members ++ [125])

def itemsText : List (Blanks × Value × Blanks) → Bytes
  | [] => []
  | (before, value, after) :: rest =>
      before.1 ++ value.text ++ after.1 ++ restItemsText rest

def restItemsText : List (Blanks × Value × Blanks) → Bytes
  | [] => []
  | (before, value, after) :: rest =>
      44 :: (before.1 ++ value.text ++ after.1 ++ restItemsText rest)

def membersText : List (MemberOf Value) → Bytes
  | [] => []
  | member :: rest => memberText member ++ restMembersText rest

def restMembersText : List (MemberOf Value) → Bytes
  | [] => []
  | member :: rest => 44 :: (memberText member ++ restMembersText rest)

def memberText : MemberOf Value → Bytes
  | ⟨before, name, beforeColon, afterColon, value, after⟩ =>
      before.1 ++ 34 :: (name.text ++ 34 :: (beforeColon.1 ++ 58 :: (afterColon.1 ++
        value.text ++ after.1)))

end

/-- A text that is an object. -/
structure Document where
  leading : Blanks
  inner : Blanks
  members : List Member
  trailing : Blanks

namespace Document

def text (doc : Document) : Bytes :=
  doc.leading.1 ++ (Value.object doc.inner doc.members).text ++ doc.trailing.1

/-- An object without white space, with names that need no escapes. -/
def compact (members : List (Bytes × Value)) : Document where
  leading := .none
  inner := .none
  members := members.map fun m =>
    { before := .none
      name := Pieces.ofBytes m.1
      beforeColon := .none
      afterColon := .none
      value := m.2
      after := .none }
  trailing := .none

/-- The member of a name; the last one where a name is there more than once. -/
def find (doc : Document) (key : Bytes) : Option Member :=
  doc.members.reverse.find? fun member => member.name.decoded = key

def valueAt (doc : Document) (key : Bytes) : Option Value := (doc.find key).map (·.value)

/-- The text in front of the name of a member. -/
def lead (doc : Document) (front : List Member) (member : Member) : Bytes :=
  doc.leading.1 ++ 123 :: (doc.inner.1 ++ front.flatMap (fun m => memberText m ++ [44]) ++
    member.before.1)

/-- The text behind the value of a member. -/
def behind (doc : Document) (member : Member) (back : List Member) : Bytes :=
  member.after.1 ++ (restMembersText back ++ 125 :: doc.trailing.1)

theorem find_split {doc : Document} {key : Bytes} {front back : List Member} {member : Member}
    (hsplit : doc.members = front ++ member :: back) (hname : member.name.decoded = key)
    (hback : ∀ m ∈ back, m.name.decoded ≠ key) : doc.find key = some member := by
  have hnone : back.reverse.find? (fun m => decide (m.name.decoded = key)) = none := by
    rw [List.find?_eq_none]
    intro m hm
    simpa using hback m (List.mem_reverse.mp hm)
  rw [find, hsplit, List.reverse_append, List.reverse_cons, List.append_assoc,
    List.find?_append, hnone]
  simp [hname]

theorem membersText_append (front : List Member) (member : Member) (back : List Member) :
    membersText (front ++ member :: back) =
      front.flatMap (fun m => memberText m ++ [44]) ++ memberText member ++
        restMembersText back := by
  have hrest : ∀ front : List Member, restMembersText (front ++ member :: back) =
      44 :: (front.flatMap (fun m => memberText m ++ [44]) ++ memberText member ++
        restMembersText back) := by
    intro front
    induction front with
    | nil => simp [restMembersText]
    | cons m front ih => simp [restMembersText, ih]
  cases front with
  | nil => simp [membersText]
  | cons m front => simp [membersText, hrest]

theorem text_split {doc : Document} {front back : List Member} {member : Member}
    (hsplit : doc.members = front ++ member :: back) :
    doc.text = doc.lead front member ++ ((34 :: (member.name.text ++ [34])) ++
      (member.beforeColon.1 ++ 58 :: (member.afterColon.1 ++
        (member.value.text ++ doc.behind member back)))) := by
  rw [text, Value.text, hsplit, membersText_append]
  obtain ⟨before, name, beforeColon, afterColon, value, after⟩ := member
  simp [lead, behind, memberText]

/-- Behind a value stands white space, a comma or a closing brace. -/
theorem behind_head (doc : Document) (member : Member) (back : List Member) :
    ∃ b rest, doc.behind member back = b :: rest ∧ (IsBlank b ∨ b = 44 ∨ b = 125) := by
  rw [behind]
  cases hafter : member.after.1 with
  | cons b rest =>
      refine ⟨b, _, rfl, .inl (member.after.2 b ?_)⟩
      rw [hafter]
      exact List.mem_cons_self
  | nil =>
      cases back with
      | nil => exact ⟨125, _, rfl, .inr (.inr rfl)⟩
      | cons m back => exact ⟨44, _, rfl, .inr (.inl rfl)⟩

end Document

/-! ## The first byte of a value -/

theorem Number.text_head (n : Number) :
    ∃ b rest, n.text = b :: rest ∧ (b = 45 ∨ 48 ≤ b ∧ b ≤ 57) := by
  unfold Number.text
  cases n.negative with
  | true => exact ⟨45, _, rfl, .inl rfl⟩
  | false =>
      obtain ⟨hne, hdigits⟩ := n.whole.2
      cases hwhole : n.whole.1 with
      | nil => exact absurd hwhole hne
      | cons b rest => exact ⟨b, _, rfl, .inr (hdigits b (by simp [hwhole]))⟩

/-- A value starts with a byte that tells its kind. -/
theorem Value.text_head (value : Value) :
    ∃ b rest, value.text = b :: rest ∧
      match value with
      | .null => b = 110
      | .bool true => b = 116
      | .bool false => b = 102
      | .number _ => b = 45 ∨ 48 ≤ b ∧ b ≤ 57
      | .string _ => b = 34
      | .array _ _ => b = 91
      | .object _ _ => b = 123 := by
  cases value with
  | null => exact ⟨_, _, rfl, rfl⟩
  | bool b => cases b <;> exact ⟨_, _, rfl, rfl⟩
  | number n =>
      obtain ⟨b, rest, htext, hb⟩ := n.text_head
      exact ⟨b, rest, by rw [Value.text, htext], hb⟩
  | string s => exact ⟨_, _, by rw [Value.text], rfl⟩
  | array inner items => exact ⟨_, _, by rw [Value.text], rfl⟩
  | object inner members => exact ⟨_, _, by rw [Value.text], rfl⟩

end JiuwenCore.JsonSyntax
