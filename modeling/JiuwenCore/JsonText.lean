import JiuwenCore.Json
import JiuwenCore.Utils.Encoding

/-!
# The text of a JSON value

What the library documents of `dump`: the compact text of a value, and that a value
is dumped exactly when its strings are UTF-8. Numbers with a fraction are printed by
a function of their bits that is left open.
-/

namespace JiuwenCore

namespace Json

/-! ## Strings of a value -/

mutual

/-- The strings and the keys of a value. -/
@[grind =] def strings : Json → List Str
  | .str s => [s]
  | .arr items => itemStrings items
  | .obj members => memberStrings members
  | .null | .bool _ | .int _ | .float _ => []

def itemStrings : List Json → List Str
  | [] => []
  | item :: rest => item.strings ++ itemStrings rest

def memberStrings : List (Str × Json) → List Str
  | [] => []
  | (key, item) :: rest => key :: (item.strings ++ memberStrings rest)

end

/-- Every string of the value is UTF-8. -/
def Utf8Only (j : Json) : Prop := ∀ s ∈ j.strings, Utf8.Text s

instance (j : Json) : Decidable j.Utf8Only :=
  inferInstanceAs (Decidable (∀ s ∈ j.strings, Utf8.Text s))

@[simp] theorem utf8Only_str {s : Str} : (str s).Utf8Only ↔ Utf8.Text s := by
  simp [Utf8Only, strings]

@[simp] theorem utf8Only_bool {b : Bool} : (bool b).Utf8Only := by simp [Utf8Only, strings]

@[simp] theorem utf8Only_int {i : Int} : (int i).Utf8Only := by simp [Utf8Only, strings]

@[simp] theorem utf8Only_float {bits : UInt64} : (float bits).Utf8Only := by
  simp [Utf8Only, strings]

theorem utf8Only_arr {items : List Json} : (arr items).Utf8Only ↔ ∀ j ∈ items, j.Utf8Only := by
  unfold Utf8Only
  rw [strings]
  induction items with
  | nil => simp [itemStrings]
  | cons item rest ih =>
      rw [itemStrings, List.forall_mem_append, ih, List.forall_mem_cons]

theorem utf8Only_obj {members : List (Str × Json)} :
    (obj members).Utf8Only ↔ ∀ entry ∈ members, Utf8.Text entry.1 ∧ entry.2.Utf8Only := by
  unfold Utf8Only
  rw [strings]
  induction members with
  | nil => simp [memberStrings]
  | cons entry rest ih =>
      rw [memberStrings, List.forall_mem_cons, List.forall_mem_append, ih, List.forall_mem_cons,
        and_assoc]

/-! ## The compact text -/

def hexDigit (n : UInt8) : UInt8 := if n < 10 then 48 + n else 87 + n

/-- The bytes a string literal holds for one byte. -/
def escapeByte (b : UInt8) : Str :=
  if b = 34 ∨ b = 92 then [92, b]
  else if b = 8 then [92, 98]
  else if b = 9 then [92, 116]
  else if b = 10 then [92, 110]
  else if b = 12 then [92, 102]
  else if b = 13 then [92, 114]
  else if b ≤ 0x1F then [92, 117, 48, 48, hexDigit (b / 16), hexDigit (b % 16)]
  else [b]

def escape (s : Str) : Str := s.flatMap escapeByte

def quote (s : Str) : Str := [34] ++ escape s ++ [34]

def printInt (i : Int) : Str :=
  if i < 0 then [45] ++ toDecimal i.natAbs else toDecimal i.natAbs

mutual

/-- `dump()` of a value whose strings are UTF-8. -/
def print (floatText : UInt64 → Str) : Json → Str
  | .null => lit "null"
  | .bool b => if b then lit "true" else lit "false"
  | .int i => printInt i
  | .float bits => floatText bits
  | .str s => quote s
  | .arr [] => [91, 93]
  | .arr (item :: rest) => [91] ++ item.print floatText ++ printItems floatText rest ++ [93]
  | .obj [] => [123, 125]
  | .obj ((key, item) :: rest) =>
      [123] ++ quote key ++ [58] ++ item.print floatText ++ printMembers floatText rest ++ [125]

def printItems (floatText : UInt64 → Str) : List Json → Str
  | [] => []
  | item :: rest => [44] ++ item.print floatText ++ printItems floatText rest

def printMembers (floatText : UInt64 → Str) : List (Str × Json) → Str
  | [] => []
  | (key, item) :: rest =>
      [44] ++ quote key ++ [58] ++ item.print floatText ++ printMembers floatText rest

end

example : (obj [(lit "a", .arr [.int (-3), .str [34]])]).print (fun _ => []) =
    lit "\x7b\"a\":[-3,\"\\\"\"]\x7d" := by decide

/-! ## The text is UTF-8 -/

theorem hexDigit_ascii (n : UInt8) (h : n < 16) : hexDigit n ≤ 0x7F := by
  have hall : ∀ k : Fin 16, hexDigit (UInt8.ofNat k) ≤ 0x7F := by decide
  exact byte_below (motive := fun n => hexDigit n ≤ 0x7F) hall (UInt8.lt_iff_toNat_lt.mp h)

theorem escapeByte_ascii {b : UInt8} (h : b ≤ 0x7F) : Utf8.Ascii (escapeByte b) := by
  have hhigh : hexDigit (b / 16) ≤ 0x7F := hexDigit_ascii _ (by
    rw [UInt8.lt_iff_toNat_lt, UInt8.toNat_div]
    have hb := b.toNat_lt
    simp only [UInt8.reduceToNat]
    omega)
  have hlow : hexDigit (b % 16) ≤ 0x7F := hexDigit_ascii _ (by
    rw [UInt8.lt_iff_toNat_lt, UInt8.toNat_mod]
    simp only [UInt8.reduceToNat]
    omega)
  unfold escapeByte
  repeat' split
  all_goals simp_all [Utf8.Ascii]

theorem escapeByte_high {b : UInt8} (h : 0x7F < b) : escapeByte b = [b] := by
  have hne : ∀ k : UInt8, k ≤ 0x7F → b ≠ k := fun k hk he =>
    UInt8.not_le.mpr h (he ▸ hk)
  unfold escapeByte
  rw [if_neg, if_neg (hne 8 (by decide)), if_neg (hne 9 (by decide)), if_neg (hne 10 (by decide)),
    if_neg (hne 12 (by decide)), if_neg (hne 13 (by decide)), if_neg]
  · exact fun hle => UInt8.not_le.mpr h (UInt8.le_trans hle (by decide))
  · exact fun he => he.elim (hne 34 (by decide)) (hne 92 (by decide))

theorem escape_char {c : Str} (h : Utf8.Char c) : Utf8.Text (escape c) := by
  match c, h with
  | a :: c, h =>
      by_cases ha : a ≤ 0x7F
      · have hnil : c = [] := h.of_ascii ha
        subst hnil
        simpa [escape] using (escapeByte_ascii ha).text
      · have hlead : escapeByte a = [a] := escapeByte_high (UInt8.not_le.mp ha)
        have htail : escape c = c := by
          have hpure : c.flatMap escapeByte = c.flatMap (fun b => [b]) :=
            List.flatMap_congr fun b hb => escapeByte_high (h.tail_not_ascii b hb)
          rw [escape, hpure, List.flatMap_singleton']
        have hsame : escape (a :: c) = a :: c := by
          rw [escape, List.flatMap_cons, hlead]
          exact congrArg (a :: ·) htail
        rw [hsame]
        exact .of_char h

theorem escape_text {s : Str} (h : Utf8.Text s) : Utf8.Text (escape s) := by
  induction h with
  | nil => exact .nil
  | cons hc _ ih =>
      rw [escape, List.flatMap_append]
      exact (escape_char hc).append ih

theorem quote_text {s : Str} (h : Utf8.Text s) : Utf8.Text (quote s) := by
  have hmark : Utf8.Ascii [34] := by decide
  exact (hmark.text.append (escape_text h)).append hmark.text

theorem toDecimal_ascii (n : Nat) : Utf8.Ascii (toDecimal n) := by
  intro b hb
  have hrange := toDecimal_range n b hb
  simp only [UInt8.le_iff_toNat_le, UInt8.reduceToNat]
  omega

theorem printInt_text (i : Int) : Utf8.Text (printInt i) := by
  have hsign : Utf8.Ascii [45] := by decide
  unfold printInt
  split
  · exact hsign.text.append (toDecimal_ascii _).text
  · exact (toDecimal_ascii _).text

mutual

/-- A value whose strings are UTF-8 is printed as UTF-8. -/
theorem print_text {floatText : UInt64 → Str}
    (hfloat : ∀ bits, Utf8.Ascii (floatText bits)) (j : Json) (h : j.Utf8Only) :
    Utf8.Text (j.print floatText) := by
  match j with
  | .null => exact (show Utf8.Ascii (lit "null") by decide).text
  | .bool true => exact (show Utf8.Ascii (lit "true") by decide).text
  | .bool false => exact (show Utf8.Ascii (lit "false") by decide).text
  | .int i => exact printInt_text i
  | .float bits => exact (hfloat bits).text
  | .str s => exact quote_text (utf8Only_str.mp h)
  | .arr [] => exact (show Utf8.Ascii [91, 93] by decide).text
  | .arr (item :: rest) =>
      obtain ⟨hitem, hrest⟩ := List.forall_mem_cons.mp (utf8Only_arr.mp h)
      have hopen : Utf8.Ascii [91] := by decide
      have hclose : Utf8.Ascii [93] := by decide
      exact ((hopen.text.append (print_text hfloat item hitem)).append
        (printItems_text hfloat rest hrest)).append hclose.text
  | .obj [] => exact (show Utf8.Ascii [123, 125] by decide).text
  | .obj ((key, item) :: rest) =>
      obtain ⟨⟨hkey, hitem⟩, hrest⟩ := List.forall_mem_cons.mp (utf8Only_obj.mp h)
      have hopen : Utf8.Ascii [123] := by decide
      have hcolon : Utf8.Ascii [58] := by decide
      have hclose : Utf8.Ascii [125] := by decide
      exact ((((hopen.text.append (quote_text hkey)).append hcolon.text).append
        (print_text hfloat item hitem)).append (printMembers_text hfloat rest hrest)).append hclose.text

theorem printItems_text {floatText : UInt64 → Str}
    (hfloat : ∀ bits, Utf8.Ascii (floatText bits)) (items : List Json)
    (h : ∀ j ∈ items, j.Utf8Only) :
    Utf8.Text (printItems floatText items) := by
  match items with
  | [] => exact .nil
  | item :: rest =>
      obtain ⟨hitem, hrest⟩ := List.forall_mem_cons.mp h
      have hcomma : Utf8.Ascii [44] := by decide
      exact (hcomma.text.append (print_text hfloat item hitem)).append (printItems_text hfloat rest hrest)

theorem printMembers_text {floatText : UInt64 → Str}
    (hfloat : ∀ bits, Utf8.Ascii (floatText bits)) (members : List (Str × Json))
    (h : ∀ entry ∈ members, Utf8.Text entry.1 ∧ entry.2.Utf8Only) :
    Utf8.Text (printMembers floatText members) := by
  match members with
  | [] => exact .nil
  | (key, item) :: rest =>
      obtain ⟨⟨hkey, hitem⟩, hrest⟩ := List.forall_mem_cons.mp h
      have hcomma : Utf8.Ascii [44] := by decide
      have hcolon : Utf8.Ascii [58] := by decide
      exact (((hcomma.text.append (quote_text hkey)).append hcolon.text).append
        (print_text hfloat item hitem)).append (printMembers_text hfloat rest hrest)

end

end Json

/-! ## The library -/

/-- What the library documents of UTF-8: a value is dumped exactly when its strings are
UTF-8, and what it dumps and what it parses is UTF-8. -/
structure JsonLib.StrictUtf8 (lib : JsonLib) : Prop where
  dump_isSome : ∀ j, (lib.dump j).isSome ↔ j.Utf8Only
  dump_text : ∀ j text, lib.dump j = some text → Utf8.Text text
  dumpIndented_isSome : ∀ n j, (lib.dumpIndented n j).isSome ↔ j.Utf8Only
  dumpIndented_text : ∀ n j text, lib.dumpIndented n j = some text → Utf8.Text text
  parse_utf8 : ∀ text j, lib.parse text = some j → j.Utf8Only

/-- A library with the compact printer, which here ignores the indentation, and a
parser of its own. -/
def compactLib (floatText : UInt64 → Str) (parse : Str → Option Json) : JsonLib where
  parse := parse
  dump := fun j => if j.Utf8Only then some (j.print floatText) else none
  dumpIndented := fun _ j => if j.Utf8Only then some (j.print floatText) else none
  floatToInt := fun _ => 0

theorem compactLib_strict {floatText : UInt64 → Str} {parse : Str → Option Json}
    (hfloat : ∀ bits, Utf8.Ascii (floatText bits))
    (hparse : ∀ text j, parse text = some j → j.Utf8Only) :
    (compactLib floatText parse).StrictUtf8 := by
  have hsome : ∀ j : Json, (if j.Utf8Only then some (j.print floatText) else none).isSome ↔
      j.Utf8Only := fun j => by split <;> simp_all
  have htext : ∀ (j : Json) (text : Str),
      (if j.Utf8Only then some (j.print floatText) else none) = some text → Utf8.Text text := by
    intro j text h
    split at h
    · rename_i hutf8
      cases h
      exact Json.print_text hfloat j hutf8
    · cases h
  exact ⟨hsome, htext, fun _ => hsome, fun _ => htext, hparse⟩

/-- A library that parses one text. -/
def oneTextLib (text : Str) (j : Json) : JsonLib :=
  compactLib (fun _ => lit "0.0") fun t => if t = text then some j else none

theorem oneTextLib_parse (text : Str) (j : Json) : (oneTextLib text j).parse text = some j :=
  if_pos rfl

theorem oneTextLib_strict {text : Str} {j : Json} (h : j.Utf8Only) :
    (oneTextLib text j).StrictUtf8 := by
  refine compactLib_strict (fun _ => by decide) ?_
  intro t j' hparse
  split at hparse
  · cases hparse
    exact h
  · cases hparse

end JiuwenCore
