import JiuwenCore.JsonText

/-!
# Reading JSON text

A printer with a layout, a reader, and the library they make. The reader gives back what
the printer writes, and nothing for a text that ends too early. Statements about the
framework are over any library that has these properties (`JsonLib.Faithful`); this one
shows that there is such a library.
-/

namespace JiuwenCore

namespace Json

/-! ## Values the library can hold -/

/-- Finite: not all bits of the exponent are set. -/
def finiteBits (bits : UInt64) : Prop := bits >>> 52 &&& 0x7FF ≠ 0x7FF

instance (bits : UInt64) : Decidable (finiteBits bits) := inferInstanceAs (Decidable (_ ≠ _))

mutual

/-- Integers of 64 bits, finite numbers, and objects with their keys in order. -/
def regular : Json → Bool
  | .int i => decide (-2 ^ 63 ≤ i ∧ i < 2 ^ 64)
  | .float bits => decide (finiteBits bits)
  | .arr items => itemsRegular items
  | .obj members => decide ((members.map (·.1)).Pairwise (· < ·)) && membersRegular members
  | .null | .bool _ | .str _ => true

def itemsRegular : List Json → Bool
  | [] => true
  | item :: rest => item.regular && itemsRegular rest

def membersRegular : List (Str × Json) → Bool
  | [] => true
  | (_, item) :: rest => item.regular && membersRegular rest

end

theorem regular_arr {items : List Json} :
    (arr items).regular = true ↔ ∀ item ∈ items, item.regular = true := by
  rw [regular]
  induction items with
  | nil => simp [itemsRegular]
  | cons item rest ih => rw [itemsRegular, Bool.and_eq_true, ih, List.forall_mem_cons]

theorem regular_obj {members : List (Str × Json)} : (obj members).regular = true ↔
    (members.map (·.1)).Pairwise (· < ·) ∧ ∀ entry ∈ members, entry.2.regular = true := by
  rw [regular, Bool.and_eq_true, decide_eq_true_iff]
  refine and_congr Iff.rfl ?_
  induction members with
  | nil => simp [membersRegular]
  | cons entry rest ih => rw [membersRegular, Bool.and_eq_true, ih, List.forall_mem_cons]

/-! ## Printing with a layout -/

/-- What stands on the line break before a value at some depth, and behind a colon. -/
structure Layout where
  newline : Nat → Str
  colon : Str

def Layout.compact : Layout := ⟨fun _ => [], []⟩

def Layout.indented (n : Nat) : Layout :=
  ⟨fun depth => 10 :: List.replicate (n * depth) 32, [32]⟩

mutual

/-- The text of a value at some depth. -/
def layOut (floatText : UInt64 → Str) (layout : Layout) (depth : Nat) : Json → Str
  | .null => lit "null"
  | .bool b => if b then lit "true" else lit "false"
  | .int i => printInt i
  | .float bits => floatText bits
  | .str s => quote s
  | .arr [] => [91, 93]
  | .arr (item :: rest) =>
      91 :: (layout.newline (depth + 1) ++ (item.layOut floatText layout (depth + 1) ++
        layOutItems floatText layout depth rest))
  | .obj [] => [123, 125]
  | .obj ((key, item) :: rest) =>
      123 :: (layout.newline (depth + 1) ++ (quote key ++ (58 :: (layout.colon ++
        (item.layOut floatText layout (depth + 1) ++ layOutMembers floatText layout depth rest)))))

def layOutItems (floatText : UInt64 → Str) (layout : Layout) (depth : Nat) : List Json → Str
  | [] => layout.newline depth ++ [93]
  | item :: rest =>
      44 :: (layout.newline (depth + 1) ++ (item.layOut floatText layout (depth + 1) ++
        layOutItems floatText layout depth rest))

def layOutMembers (floatText : UInt64 → Str) (layout : Layout) (depth : Nat) :
    List (Str × Json) → Str
  | [] => layout.newline depth ++ [125]
  | (key, item) :: rest =>
      44 :: (layout.newline (depth + 1) ++ (quote key ++ (58 :: (layout.colon ++
        (item.layOut floatText layout (depth + 1) ++ layOutMembers floatText layout depth rest)))))

end

example : (arr [.int 1, .obj [(lit "a", .null)]]).layOut (fun _ => []) (.indented 2) 0 =
    lit "[\n  1,\n  \x7b\n    \"a\": null\n  \x7d\n]" := by decide

/-! ## What the text is made of -/

section

variable {floatText : UInt64 → Str} {layout : Layout} {T : Str → Prop}

/-- A property of texts that passes to a joined text and holds of the parts of a value. -/
structure Parts (floatText : UInt64 → Str) (layout : Layout) (T : Str → Prop) : Prop where
  append : ∀ {s t}, T s → T t → T (s ++ t)
  mark : ∀ b ∈ ([91, 93, 123, 125, 44, 58] : Str), T [b]
  word : T (lit "null") ∧ T (lit "true") ∧ T (lit "false")
  int : ∀ i, T (printInt i)
  float : ∀ bits, T (floatText bits)
  string : ∀ s, Utf8.Text s → T (quote s)
  newline : ∀ depth, T (layout.newline depth)
  colon : T layout.colon

theorem Parts.cons (h : Parts floatText layout T) {b : UInt8}
    (hb : b ∈ ([91, 93, 123, 125, 44, 58] : Str)) {s : Str} (hs : T s) : T (b :: s) :=
  h.append (h.mark b hb) hs

mutual

theorem Parts.layOut (h : Parts floatText layout T) (depth : Nat) (j : Json)
    (hj : j.Utf8Only) : T (j.layOut floatText layout depth) := by
  match j with
  | .null => exact h.word.1
  | .bool true => exact h.word.2.1
  | .bool false => exact h.word.2.2
  | .int i => exact h.int i
  | .float bits => exact h.float bits
  | .str s => exact h.string s (utf8Only_str.mp hj)
  | .arr [] => exact h.cons (by decide) (h.mark 93 (by decide))
  | .arr (item :: rest) =>
      obtain ⟨hitem, hrest⟩ := List.forall_mem_cons.mp (utf8Only_arr.mp hj)
      exact h.cons (by decide) (h.append (h.newline _)
        (h.append (h.layOut _ item hitem) (h.layOutItems depth rest hrest)))
  | .obj [] => exact h.cons (by decide) (h.mark 125 (by decide))
  | .obj ((key, item) :: rest) =>
      obtain ⟨⟨hkey, hitem⟩, hrest⟩ := List.forall_mem_cons.mp (utf8Only_obj.mp hj)
      have hmember := h.append h.colon
        (h.append (h.layOut (depth + 1) item hitem) (h.layOutMembers depth rest hrest))
      exact h.cons (by decide) (h.append (h.newline _)
        (h.append (h.string key hkey) (h.cons (by decide) hmember)))

theorem Parts.layOutItems (h : Parts floatText layout T) (depth : Nat) (items : List Json)
    (hitems : ∀ item ∈ items, item.Utf8Only) : T (layOutItems floatText layout depth items) := by
  match items with
  | [] => exact h.append (h.newline _) (h.mark 93 (by decide))
  | item :: rest =>
      obtain ⟨hitem, hrest⟩ := List.forall_mem_cons.mp hitems
      exact h.cons (by decide) (h.append (h.newline _)
        (h.append (h.layOut _ item hitem) (h.layOutItems depth rest hrest)))

theorem Parts.layOutMembers (h : Parts floatText layout T) (depth : Nat)
    (members : List (Str × Json))
    (hmembers : ∀ entry ∈ members, Utf8.Text entry.1 ∧ entry.2.Utf8Only) :
    T (layOutMembers floatText layout depth members) := by
  match members with
  | [] => exact h.append (h.newline _) (h.mark 125 (by decide))
  | (key, item) :: rest =>
      obtain ⟨⟨hkey, hitem⟩, hrest⟩ := List.forall_mem_cons.mp hmembers
      have hmember := h.append h.colon
        (h.append (h.layOut (depth + 1) item hitem) (h.layOutMembers depth rest hrest))
      exact h.cons (by decide) (h.append (h.newline _)
        (h.append (h.string key hkey) (h.cons (by decide) hmember)))

end

end

/-! ## Reading -/

def isBlank (b : UInt8) : Bool := b = 32 ∨ b = 9 ∨ b = 10 ∨ b = 13

def isDigit (b : UInt8) : Bool := 48 ≤ b ∧ b ≤ 57

def skipBlanks (s : Str) : Str := s.dropWhile isBlank

/-- The rest behind the byte `b`, if that comes next. -/
def expect (b : UInt8) (s : Str) : Option Str :=
  match skipBlanks s with
  | c :: rest => if c = b then some rest else none
  | [] => none

def hexValue (c : UInt8) : UInt8 := if c < 58 then c - 48 else c - 87

/-- The byte behind a backslash stands for this one. -/
def unescape (c : UInt8) : UInt8 :=
  if c = 98 then 8 else if c = 116 then 9 else if c = 110 then 10
  else if c = 102 then 12 else if c = 114 then 13 else c

def push (b : UInt8) (read : Str × Str) : Str × Str := (b :: read.1, read.2)

/-- A string up to its closing quote; `\u` stands for control characters only. -/
def readChars : Str → Option (Str × Str)
  | [] => none
  | 34 :: rest => some ([], rest)
  | 92 :: 117 :: 48 :: 48 :: high :: low :: rest =>
      (readChars rest).map (push (16 * hexValue high + hexValue low))
  | 92 :: c :: rest => if c = 117 then none else (readChars rest).map (push (unescape c))
  | [92] => none
  | c :: rest => (readChars rest).map (push c)

/-- What stands behind the digits of a number; a fraction is written as `.0`. -/
def readFraction (sign : Int) (digits : Str) : Str → Option (Json × Str)
  | 46 :: 48 :: rest => some (.float (UInt64.ofNat (ofDecimal digits)), rest)
  | 46 :: _ => none
  | rest => some (.int (sign * ofDecimal digits), rest)

def readNumber (sign : Int) (s : Str) : Option (Json × Str) :=
  if s.takeWhile isDigit = [] then none
  else readFraction sign (s.takeWhile isDigit) (s.dropWhile isDigit)

/-- The rest behind a keyword. -/
def readWord (word : Str) (j : Json) (s : Str) : Option (Json × Str) :=
  if word.isPrefixOf s then some (j, s.drop word.length) else none

mutual

def readValue : Nat → Str → Option (Json × Str)
  | 0, _ => none
  | fuel + 1, s =>
      match skipBlanks s with
      | [] => none
      | c :: rest =>
          if c = 34 then (readChars rest).map fun read => (.str read.1, read.2)
          else if c = 91 then
            match expect 93 rest with
            | some rest => some (.arr [], rest)
            | none => (readItems fuel rest).map fun read => (.arr read.1, read.2)
          else if c = 123 then
            match expect 125 rest with
            | some rest => some (.obj [], rest)
            | none => (readMembers fuel rest).map fun read => (.obj read.1, read.2)
          else if c = 110 then readWord (lit "null") .null (c :: rest)
          else if c = 116 then readWord (lit "true") (.bool true) (c :: rest)
          else if c = 102 then readWord (lit "false") (.bool false) (c :: rest)
          else if c = 45 then readNumber (-1) rest
          else readNumber 1 (c :: rest)

/-- The items of an array up to its closing bracket. -/
def readItems : Nat → Str → Option (List Json × Str)
  | 0, _ => none
  | fuel + 1, s => do
      let (item, rest) ← readValue fuel s
      match expect 44 rest with
      | some rest => (readItems fuel rest).map fun read => (item :: read.1, read.2)
      | none => (expect 93 rest).map fun rest => ([item], rest)

/-- The members of an object up to its closing brace. -/
def readMembers : Nat → Str → Option (List (Str × Json) × Str)
  | 0, _ => none
  | fuel + 1, s => do
      let (key, rest) ← (expect 34 s).bind readChars
      let (item, rest) ← (expect 58 rest).bind (readValue fuel)
      match expect 44 rest with
      | some rest => (readMembers fuel rest).map fun read => ((key, item) :: read.1, read.2)
      | none => (expect 125 rest).map fun rest => ([(key, item)], rest)

end

/-- The value a text consists of. -/
def read (text : Str) : Option Json :=
  match readValue (text.length + 1) text with
  | some (j, rest) =>
      if skipBlanks rest = [] ∧ j.regular ∧ j.Utf8Only then some j else none
  | none => none

/-! ## Strings are read back -/

theorem readChars_quote (rest : Str) : readChars (34 :: rest) = some ([], rest) := rfl

theorem readChars_plain {c : UInt8} (hquote : c ≠ 34) (hslash : c ≠ 92) (rest : Str) :
    readChars (c :: rest) = (readChars rest).map (push c) := by
  rw [readChars]
  · exact fun h => hquote h
  · exact fun _ _ _ h => absurd h hslash
  · exact fun _ _ h => absurd h hslash
  · exact fun h => absurd h hslash

theorem readChars_short {c : UInt8} (hc : c ≠ 117) (rest : Str) :
    readChars (92 :: c :: rest) = (readChars rest).map (push (unescape c)) := by
  rw [readChars]
  · rw [if_neg hc]
  · simp_all

theorem readChars_hex (high low : UInt8) (rest : Str) :
    readChars (92 :: 117 :: 48 :: 48 :: high :: low :: rest) =
      (readChars rest).map (push (16 * hexValue high + hexValue low)) := rfl

theorem hexDigits_join (b : UInt8) :
    16 * hexValue (hexDigit (b / 16)) + hexValue (hexDigit (b % 16)) = b := by
  have hall : ∀ k : Fin 256, 16 * hexValue (hexDigit (UInt8.ofNat k / 16)) +
      hexValue (hexDigit (UInt8.ofNat k % 16)) = UInt8.ofNat k := by decide +kernel
  exact byte_below
    (motive := fun b => 16 * hexValue (hexDigit (b / 16)) + hexValue (hexDigit (b % 16)) = b)
    hall b.toNat_lt

theorem readChars_escapeByte (b : UInt8) (rest : Str) :
    readChars (escapeByte b ++ rest) = (readChars rest).map (push b) := by
  unfold escapeByte
  split
  · rename_i h
    rcases h with rfl | rfl
    · exact readChars_short (by decide) rest
    · exact readChars_short (by decide) rest
  rename_i hmarks
  have hquote : b ≠ 34 := fun h => hmarks (Or.inl h)
  have hslash : b ≠ 92 := fun h => hmarks (Or.inr h)
  split
  · rename_i h
    subst h
    exact readChars_short (by decide) rest
  split
  · rename_i h
    subst h
    exact readChars_short (by decide) rest
  split
  · rename_i h
    subst h
    exact readChars_short (by decide) rest
  split
  · rename_i h
    subst h
    exact readChars_short (by decide) rest
  split
  · rename_i h
    subst h
    exact readChars_short (by decide) rest
  split
  · have hread := readChars_hex (hexDigit (b / 16)) (hexDigit (b % 16)) rest
    rw [hexDigits_join] at hread
    exact hread
  · exact readChars_plain hquote hslash rest

theorem readChars_escape (s rest : Str) : readChars (escape s ++ 34 :: rest) = some (s, rest) := by
  induction s with
  | nil => exact readChars_quote rest
  | cons b s ih =>
      rw [escape, List.flatMap_cons, List.append_assoc, readChars_escapeByte]
      exact congrArg (Option.map (push b)) ih

/-! ## Blanks and numbers -/

theorem skipBlanks_append {s : Str} (h : ∀ b ∈ s, isBlank b = true) (t : Str) :
    skipBlanks (s ++ t) = skipBlanks t :=
  List.dropWhile_append_of_pos h

theorem skipBlanks_cons {c : UInt8} (h : isBlank c = false) (t : Str) :
    skipBlanks (c :: t) = c :: t :=
  List.dropWhile_cons_of_neg (by rw [h]; decide)

theorem expect_append {s : Str} (h : ∀ b ∈ s, isBlank b = true) (b : UInt8) (t : Str) :
    expect b (s ++ t) = expect b t := by
  rw [expect, skipBlanks_append h, expect]

theorem expect_cons {b c : UInt8} (h : isBlank c = false) (t : Str) :
    expect b (c :: t) = if c = b then some t else none := by
  rw [expect, skipBlanks_cons h]

/-- What comes behind a number does not go on with it. -/
def Stops (rest : Str) : Prop := ∀ b ∈ rest.head?, isDigit b = false ∧ b ≠ 46

theorem stops_cons {b : UInt8} (h : isDigit b = false ∧ b ≠ 46) (rest : Str) :
    Stops (b :: rest) := by
  intro c hc
  cases hc
  exact h

theorem toDecimal_digits (n : Nat) : ∀ b ∈ toDecimal n, isDigit b = true := by
  intro b hb
  simp only [isDigit, decide_eq_true_eq, UInt8.le_iff_toNat_le, UInt8.reduceToNat]
  exact toDecimal_range n b hb

theorem toDecimal_ne_nil (n : Nat) : toDecimal n ≠ [] := by
  unfold toDecimal
  split
  · decide
  · rename_i hn
    simpa [Nat.digits_eq_nil_iff_eq_zero] using hn

/-- A number begins with a digit. -/
theorem toDecimal_eq_cons (n : Nat) : ∃ c digits, toDecimal n = c :: digits ∧
    isBlank c = false ∧ ∀ b : UInt8, isDigit b = false → c ≠ b := by
  obtain ⟨c, digits, hn⟩ := List.exists_cons_of_ne_nil (toDecimal_ne_nil n)
  have hc : isDigit c = true := toDecimal_digits n c (by rw [hn]; exact List.mem_cons_self)
  have hne : ∀ b : UInt8, isDigit b = false → c ≠ b := by
    rintro b hb rfl
    rw [hb] at hc
    cases hc
  refine ⟨c, digits, hn, ?_, hne⟩
  simp [isBlank, hne 32 rfl, hne 9 rfl, hne 10 rfl, hne 13 rfl]

theorem span_digits {digits rest : Str} (hdigits : ∀ b ∈ digits, isDigit b = true)
    (h : ∀ b ∈ rest.head?, isDigit b = false) :
    (digits ++ rest).takeWhile isDigit = digits ∧ (digits ++ rest).dropWhile isDigit = rest := by
  rw [List.takeWhile_append_of_pos hdigits, List.dropWhile_append_of_pos hdigits]
  cases rest with
  | nil => exact ⟨List.append_nil _, rfl⟩
  | cons c rest =>
      have hc : ¬ isDigit c = true := by
        rw [h c rfl]
        decide
      rw [List.takeWhile_cons_of_neg hc, List.dropWhile_cons_of_neg hc]
      exact ⟨List.append_nil _, rfl⟩

theorem digits_span (n : Nat) {rest : Str} (h : ∀ b ∈ rest.head?, isDigit b = false) :
    (toDecimal n ++ rest).takeWhile isDigit = toDecimal n ∧
      (toDecimal n ++ rest).dropWhile isDigit = rest :=
  span_digits (toDecimal_digits n) h

theorem readFraction_plain {sign : Int} {digits rest : Str} (h : rest.head? ≠ some 46) :
    readFraction sign digits rest = some (.int (sign * ofDecimal digits), rest) := by
  unfold readFraction
  split
  · exact absurd rfl h
  · exact absurd rfl h
  · rfl

theorem readNumber_int (sign : Int) (n : Nat) {rest : Str} (h : Stops rest) :
    readNumber sign (toDecimal n ++ rest) = some (.int (sign * n), rest) := by
  obtain ⟨htake, hdrop⟩ := digits_span n fun b hb => (h b hb).1
  rw [readNumber, htake, hdrop, if_neg (toDecimal_ne_nil n),
    readFraction_plain fun hdot => (h 46 hdot).2 rfl, ofDecimal_toDecimal]

/-- How the sample library writes a number with a fraction. -/
def sampleFloat (bits : UInt64) : Str := toDecimal bits.toNat ++ lit ".0"

theorem readNumber_float (bits : UInt64) (rest : Str) :
    readNumber 1 (sampleFloat bits ++ rest) = some (.float bits, rest) := by
  have hshape : sampleFloat bits ++ rest = toDecimal bits.toNat ++ (46 :: 48 :: rest) :=
    List.append_assoc ..
  have hdot : ∀ b ∈ (46 :: 48 :: rest).head?, isDigit b = false := by
    intro b hb
    cases hb
    decide
  obtain ⟨htake, hdrop⟩ := digits_span bits.toNat hdot
  rw [hshape, readNumber, htake, hdrop, if_neg (toDecimal_ne_nil _), readFraction,
    ofDecimal_toDecimal, UInt64.ofNat_toNat]

/-! ## Values are read back -/

structure Layout.Blank (layout : Layout) : Prop where
  newline : ∀ depth, ∀ b ∈ layout.newline depth, isBlank b = true
  colon : ∀ b ∈ layout.colon, isBlank b = true

theorem stops_blanks {s t : Str} (hs : ∀ b ∈ s, isBlank b = true) (ht : Stops t) :
    Stops (s ++ t) := by
  cases s with
  | nil => exact ht
  | cons c s =>
      refine stops_cons ?_ _
      have hc := hs c List.mem_cons_self
      simp only [isBlank, decide_eq_true_eq] at hc
      rcases hc with rfl | rfl | rfl | rfl <;> decide

theorem readValue_blanks {s : Str} (h : ∀ b ∈ s, isBlank b = true) (fuel : Nat) (t : Str) :
    readValue fuel (s ++ t) = readValue fuel t := by
  cases fuel with
  | zero => rw [readValue, readValue]
  | succ fuel => rw [readValue, skipBlanks_append h, readValue]

theorem readItems_blanks {s : Str} (h : ∀ b ∈ s, isBlank b = true) (fuel : Nat) (t : Str) :
    readItems fuel (s ++ t) = readItems fuel t := by
  cases fuel with
  | zero => rw [readItems, readItems]
  | succ fuel => rw [readItems, readValue_blanks h, readItems]

theorem readMembers_blanks {s : Str} (h : ∀ b ∈ s, isBlank b = true) (fuel : Nat) (t : Str) :
    readMembers fuel (s ++ t) = readMembers fuel t := by
  cases fuel with
  | zero => rw [readMembers, readMembers]
  | succ fuel => rw [readMembers, expect_append h, readMembers]

theorem readWord_append (word : Str) (j : Json) (rest : Str) :
    readWord word j (word ++ rest) = some (j, rest) := by
  rw [readWord, if_pos (List.isPrefixOf_iff_prefix.mpr (List.prefix_append ..)), List.drop_left]

theorem readValue_null (fuel : Nat) (rest : Str) :
    readValue (fuel + 1) (lit "null" ++ rest) = some (.null, rest) := by
  rw [readValue]
  exact readWord_append (lit "null") .null rest

theorem readValue_true (fuel : Nat) (rest : Str) :
    readValue (fuel + 1) (lit "true" ++ rest) = some (.bool true, rest) := by
  rw [readValue]
  exact readWord_append (lit "true") (.bool true) rest

theorem readValue_false (fuel : Nat) (rest : Str) :
    readValue (fuel + 1) (lit "false" ++ rest) = some (.bool false, rest) := by
  rw [readValue]
  exact readWord_append (lit "false") (.bool false) rest

theorem readValue_digits (fuel n : Nat) (rest : Str) :
    readValue (fuel + 1) (toDecimal n ++ rest) = readNumber 1 (toDecimal n ++ rest) := by
  obtain ⟨c, digits, hn, hblank, hne⟩ := toDecimal_eq_cons n
  rw [hn, List.cons_append, readValue, skipBlanks_cons hblank]
  simp only [hne 34 rfl, hne 91 rfl, hne 123 rfl, hne 110 rfl, hne 116 rfl, hne 102 rfl,
    hne 45 rfl, if_false]

theorem readValue_int (fuel : Nat) (i : Int) {rest : Str} (h : Stops rest) :
    readValue (fuel + 1) (printInt i ++ rest) = some (.int i, rest) := by
  unfold printInt
  split
  · rename_i hneg
    have hvalue : (-1 : Int) * (i.natAbs : Int) = i := by omega
    rw [List.append_assoc, List.singleton_append, readValue, skipBlanks_cons rfl]
    exact (readNumber_int (-1) i.natAbs h).trans (by rw [hvalue])
  · rename_i hpos
    have hvalue : (1 : Int) * (i.natAbs : Int) = i := by omega
    rw [readValue_digits, readNumber_int 1 i.natAbs h, hvalue]

theorem readValue_float (fuel : Nat) (bits : UInt64) (rest : Str) :
    readValue (fuel + 1) (sampleFloat bits ++ rest) = some (.float bits, rest) := by
  have hread := readNumber_float bits rest
  rw [sampleFloat, List.append_assoc] at hread ⊢
  rw [readValue_digits, hread]

theorem quote_append (s rest : Str) : quote s ++ rest = 34 :: (escape s ++ 34 :: rest) := by
  simp [quote]

theorem readValue_string (fuel : Nat) (s rest : Str) :
    readValue (fuel + 1) (quote s ++ rest) = some (.str s, rest) := by
  rw [quote_append, readValue, skipBlanks_cons rfl]
  simp only [if_true, readChars_escape, Option.map_some]

section

variable {layout : Layout} (hlayout : layout.Blank)

include hlayout

theorem stops_items (depth : Nat) (items : List Json) (rest : Str) :
    Stops (layOutItems sampleFloat layout depth items ++ rest) := by
  cases items with
  | nil =>
      rw [layOutItems, List.append_assoc]
      exact stops_blanks (hlayout.newline depth) (stops_cons (by decide) rest)
  | cons item items =>
      rw [layOutItems]
      exact stops_cons (by decide) _

theorem stops_members (depth : Nat) (members : List (Str × Json)) (rest : Str) :
    Stops (layOutMembers sampleFloat layout depth members ++ rest) := by
  cases members with
  | nil =>
      rw [layOutMembers, List.append_assoc]
      exact stops_blanks (hlayout.newline depth) (stops_cons (by decide) rest)
  | cons entry members =>
      rw [layOutMembers]
      exact stops_cons (by decide) _

theorem readValue_arr {fuel depth : Nat} {item : Json} {items : List Json} {rest : Str}
    (hne : expect 93 (item.layOut sampleFloat layout (depth + 1) ++
      (layOutItems sampleFloat layout depth items ++ rest)) = none)
    (h : readItems fuel (item.layOut sampleFloat layout (depth + 1) ++
      (layOutItems sampleFloat layout depth items ++ rest)) = some (item :: items, rest)) :
    readValue (fuel + 1) ((arr (item :: items)).layOut sampleFloat layout depth ++ rest) =
      some (.arr (item :: items), rest) := by
  rw [layOut, List.cons_append, List.append_assoc, List.append_assoc, readValue,
    skipBlanks_cons rfl]
  simp only [expect_append (hlayout.newline _), hne, readItems_blanks (hlayout.newline _), h]
  rfl

theorem readValue_obj {fuel depth : Nat} {key : Str} {item : Json} {members : List (Str × Json)}
    {rest : Str}
    (h : readMembers fuel (quote key ++ (58 :: (layout.colon ++
      (item.layOut sampleFloat layout (depth + 1) ++
        (layOutMembers sampleFloat layout depth members ++ rest))))) =
          some ((key, item) :: members, rest)) :
    readValue (fuel + 1) ((obj ((key, item) :: members)).layOut sampleFloat layout depth ++ rest) =
      some (.obj ((key, item) :: members), rest) := by
  have hne : ∀ t, expect 125 (quote key ++ t) = none := by
    intro t
    rw [quote_append, expect_cons rfl, if_neg (by decide)]
  rw [layOut, List.cons_append, List.append_assoc, List.append_assoc, List.cons_append,
    List.append_assoc, List.append_assoc, readValue, skipBlanks_cons rfl]
  simp only [expect_append (hlayout.newline _), hne, readMembers_blanks (hlayout.newline _), h]
  rfl

omit hlayout in
/-- The text of a value does not begin with a closing bracket. -/
theorem expect_layOut (j : Json) (depth : Nat) (rest : Str) :
    expect 93 (j.layOut sampleFloat layout depth ++ rest) = none := by
  have hdigits : ∀ n t, expect 93 (toDecimal n ++ t) = none := by
    intro n t
    obtain ⟨c, digits, hn, hblank, hne⟩ := toDecimal_eq_cons n
    rw [hn, List.cons_append, expect_cons hblank, if_neg (hne 93 rfl)]
  cases j with
  | null => rfl
  | bool b => cases b <;> rfl
  | int i =>
      rw [layOut, printInt]
      split
      · rfl
      · exact hdigits _ _
  | float bits =>
      rw [layOut, sampleFloat, List.append_assoc]
      exact hdigits _ _
  | str s =>
      rw [layOut, quote_append]
      rfl
  | arr items => cases items <;> rfl
  | obj members => cases members <;> rfl

mutual

theorem readValue_layOut (j : Json) (depth fuel : Nat) (rest : Str)
    (hfuel : (j.layOut sampleFloat layout depth).length ≤ fuel) (hrest : Stops rest) :
    readValue (fuel + 1) (j.layOut sampleFloat layout depth ++ rest) = some (j, rest) := by
  match j with
  | .null => exact readValue_null fuel rest
  | .bool true => exact readValue_true fuel rest
  | .bool false => exact readValue_false fuel rest
  | .int i => exact readValue_int fuel i hrest
  | .float bits => exact readValue_float fuel bits rest
  | .str s => exact readValue_string fuel s rest
  | .arr [] =>
      rw [layOut, readValue]
      rfl
  | .arr (item :: items) =>
      rw [layOut] at hfuel
      simp only [List.length_cons, List.length_append] at hfuel
      obtain ⟨fuel, rfl⟩ : ∃ k, fuel = k + 1 := ⟨fuel - 1, by omega⟩
      exact readValue_arr hlayout (expect_layOut item _ _)
        (readItems_layOut item items depth fuel rest (by omega)
          fun fuel rest hle hstops => readValue_layOut item (depth + 1) fuel rest hle hstops)
  | .obj [] =>
      rw [layOut, readValue]
      rfl
  | .obj ((key, item) :: members) =>
      rw [layOut] at hfuel
      simp only [List.length_cons, List.length_append] at hfuel
      obtain ⟨fuel, rfl⟩ : ∃ k, fuel = k + 1 := ⟨fuel - 1, by omega⟩
      exact readValue_obj hlayout (readMembers_layOut key item members depth fuel rest (by omega)
        fun fuel rest hle hstops => readValue_layOut item (depth + 1) fuel rest hle hstops)

theorem readItems_layOut (first : Json) (items : List Json) (depth fuel : Nat) (rest : Str)
    (hfuel : (first.layOut sampleFloat layout (depth + 1)).length +
      (layOutItems sampleFloat layout depth items).length ≤ fuel)
    (hfirst : ∀ fuel rest, (first.layOut sampleFloat layout (depth + 1)).length ≤ fuel →
      Stops rest → readValue (fuel + 1) (first.layOut sampleFloat layout (depth + 1) ++ rest) =
        some (first, rest)) :
    readItems (fuel + 1) (first.layOut sampleFloat layout (depth + 1) ++
      (layOutItems sampleFloat layout depth items ++ rest)) = some (first :: items, rest) := by
  match items with
  | [] =>
      rw [layOutItems, List.length_append, List.length_singleton] at hfuel
      obtain ⟨fuel, rfl⟩ : ∃ k, fuel = k + 1 := ⟨fuel - 1, by omega⟩
      have hvalue := hfirst fuel (layOutItems sampleFloat layout depth [] ++ rest) (by omega)
        (stops_items hlayout depth [] rest)
      rw [readItems, hvalue]
      simp only [Option.bind_eq_bind, Option.bind_some, layOutItems, List.append_assoc,
        expect_append (hlayout.newline depth), List.singleton_append,
        expect_cons (show isBlank 93 = false from rfl)]
      rfl
  | item :: items =>
      rw [layOutItems] at hfuel
      simp only [List.length_cons, List.length_append] at hfuel
      obtain ⟨fuel, rfl⟩ : ∃ k, fuel = k + 1 := ⟨fuel - 1, by omega⟩
      have hvalue := hfirst fuel (layOutItems sampleFloat layout depth (item :: items) ++ rest)
        (by omega) (stops_items hlayout depth (item :: items) rest)
      have hrest := readItems_layOut item items depth fuel rest (by omega)
        fun fuel rest hle hstops => readValue_layOut item (depth + 1) fuel rest hle hstops
      rw [readItems, hvalue]
      simp only [Option.bind_eq_bind, Option.bind_some, layOutItems, List.cons_append,
        List.append_assoc, expect_cons (show isBlank 44 = false from rfl), if_true,
        readItems_blanks (hlayout.newline _), hrest, Option.map_some]

theorem readMembers_layOut (key : Str) (first : Json) (members : List (Str × Json))
    (depth fuel : Nat) (rest : Str)
    (hfuel : (first.layOut sampleFloat layout (depth + 1)).length +
      (layOutMembers sampleFloat layout depth members).length ≤ fuel)
    (hfirst : ∀ fuel rest, (first.layOut sampleFloat layout (depth + 1)).length ≤ fuel →
      Stops rest → readValue (fuel + 1) (first.layOut sampleFloat layout (depth + 1) ++ rest) =
        some (first, rest)) :
    readMembers (fuel + 1) (quote key ++ (58 :: (layout.colon ++
      (first.layOut sampleFloat layout (depth + 1) ++
        (layOutMembers sampleFloat layout depth members ++ rest))))) =
          some ((key, first) :: members, rest) := by
  have hkey : ∀ t, (expect 34 (quote key ++ t)).bind readChars = some (key, t) := by
    intro t
    rw [quote_append, expect_cons rfl, if_pos rfl]
    exact readChars_escape key t
  match members with
  | [] =>
      rw [layOutMembers, List.length_append, List.length_singleton] at hfuel
      obtain ⟨fuel, rfl⟩ : ∃ k, fuel = k + 1 := ⟨fuel - 1, by omega⟩
      have hvalue := hfirst fuel (layOutMembers sampleFloat layout depth [] ++ rest) (by omega)
        (stops_members hlayout depth [] rest)
      rw [readMembers, hkey]
      simp only [Option.bind_eq_bind, Option.bind_some,
        expect_cons (show isBlank 58 = false from rfl), if_true,
        readValue_blanks hlayout.colon, hvalue]
      simp only [layOutMembers, List.append_assoc,
        expect_append (hlayout.newline depth), List.singleton_append,
        expect_cons (show isBlank 125 = false from rfl)]
      rfl
  | (key', item) :: members =>
      rw [layOutMembers] at hfuel
      simp only [List.length_cons, List.length_append] at hfuel
      obtain ⟨fuel, rfl⟩ : ∃ k, fuel = k + 1 := ⟨fuel - 1, by omega⟩
      have hvalue := hfirst fuel
        (layOutMembers sampleFloat layout depth ((key', item) :: members) ++ rest)
        (by omega) (stops_members hlayout depth ((key', item) :: members) rest)
      have hrest := readMembers_layOut key' item members depth fuel rest (by omega)
        fun fuel rest hle hstops => readValue_layOut item (depth + 1) fuel rest hle hstops
      rw [readMembers, hkey]
      simp only [Option.bind_eq_bind, Option.bind_some,
        expect_cons (show isBlank 58 = false from rfl), if_true,
        readValue_blanks hlayout.colon, hvalue]
      simp only [layOutMembers, List.cons_append,
        List.append_assoc, expect_cons (show isBlank 44 = false from rfl), if_true,
        readMembers_blanks (hlayout.newline _), hrest, Option.map_some]

end

end

/-! ## Reading on

What has been read of a text is read of every longer text, as long as it does not end in
the middle of a number. So a text that is cut short is not read at all.
-/

section

variable {s r q : Str}

/-- One character more in front of what is read on. -/
theorem map_push_append {c : UInt8} {x : Str} (h : (readChars s).map (push c) = some (x, r))
    (hread : ∀ {y}, readChars s = some (y, r) → readChars (s ++ q) = some (y, r ++ q)) :
    (readChars (s ++ q)).map (push c) = some (x, r ++ q) := by
  obtain ⟨⟨y, t⟩, hy, heq⟩ := Option.map_eq_some_iff.mp h
  cases heq
  rw [hread hy]
  rfl

theorem readChars_append {x : Str} (h : readChars s = some (x, r)) :
    readChars (s ++ q) = some (x, r ++ q) := by
  fun_induction readChars s generalizing x with
  | case1 => cases h
  | case2 rest =>
      cases h
      exact readChars_quote _
  | case3 high low rest ih =>
      simp only [List.cons_append, readChars_hex]
      exact map_push_append h ih
  | case4 rest hshort => cases h
  | case5 c rest hshort hc ih =>
      simp only [List.cons_append, readChars_short hc]
      exact map_push_append h ih
  | case6 => cases h
  | case7 c rest hquote _ hshort hslash ih =>
      have hc : c ≠ 92 := by
        intro hc
        cases rest with
        | nil => exact hslash hc rfl
        | cons c' rest => exact hshort _ _ hc rfl
      simp only [List.cons_append, readChars_plain hquote hc]
      exact map_push_append h ih

theorem skipBlanks_more {c : UInt8} {t : Str} (h : skipBlanks s = c :: t) :
    skipBlanks (s ++ q) = c :: (t ++ q) := by
  have hdrop : s.dropWhile isBlank = c :: t := h
  rw [skipBlanks, List.dropWhile_append, hdrop]
  rfl

theorem expect_more {b : UInt8} (h : expect b s = some r) : expect b (s ++ q) = some (r ++ q) := by
  unfold expect at h ⊢
  split at h
  · rename_i c rest hs
    rw [skipBlanks_more hs]
    dsimp only
    split at h
    · rename_i hc
      cases h
      exact if_pos hc
    · cases h
  · cases h

theorem expect_other {b : UInt8} (h : expect b s = none) (hne : skipBlanks s ≠ []) :
    expect b (s ++ q) = none := by
  unfold expect at h ⊢
  split at h
  · rename_i c rest hs
    rw [skipBlanks_more hs]
    dsimp only
    split at h
    · cases h
    · rename_i hc
      exact if_neg hc
  · rename_i hs
    exact absurd hs hne

theorem expect_ne_nil {b : UInt8} (h : expect b s = some r) : skipBlanks s ≠ [] := by
  intro hs
  rw [expect, hs] at h
  cases h

theorem readFraction_more {sign : Int} {digits : Str} {j : Json}
    (h : readFraction sign digits s = some (j, r)) (hs : s ≠ []) :
    readFraction sign digits (s ++ q) = some (j, r ++ q) := by
  obtain ⟨c, t, rfl⟩ := List.exists_cons_of_ne_nil hs
  by_cases hdot : c = 46
  · subst hdot
    rcases t with _ | ⟨d, t⟩
    · cases h
    · by_cases hzero : d = 48
      · subst hzero
        cases h
        rfl
      · rw [readFraction] at h
        · cases h
        · exact fun _ heq => hzero (List.cons.inj heq).1
  · have hplain : ∀ rest : Str, (c :: rest).head? ≠ some 46 :=
      fun rest heq => hdot (Option.some.inj heq)
    rw [readFraction_plain (hplain t)] at h
    cases h
    rw [List.cons_append, readFraction_plain (hplain (t ++ q))]

theorem readNumber_more {sign : Int} {j : Json} (h : readNumber sign s = some (j, r))
    (hr : r ≠ []) : readNumber sign (s ++ q) = some (j, r ++ q) := by
  obtain ⟨hdigits, h⟩ := Option.ite_none_left_eq_some.mp h
  have hdrop : s.dropWhile isDigit ≠ [] := by
    intro hnil
    rw [hnil, readFraction_plain (by simp)] at h
    cases h
    exact hr rfl
  have hlength : (s.takeWhile isDigit).length ≠ s.length := by
    have hsplit := congrArg List.length (List.takeWhile_append_dropWhile (p := isDigit) (l := s))
    have hpos := List.length_pos_of_ne_nil hdrop
    rw [List.length_append] at hsplit
    omega
  have htake : (s ++ q).takeWhile isDigit = s.takeWhile isDigit := by
    rw [List.takeWhile_append, if_neg hlength]
  have hmore : (s ++ q).dropWhile isDigit = s.dropWhile isDigit ++ q := by
    rw [List.dropWhile_append, if_neg (by simpa using hdrop)]
  rw [readNumber, htake, hmore, if_neg hdigits, readFraction_more h hdrop]

theorem readNumber_not_arr {sign : Int} {j : Json} (h : readNumber sign s = some (j, r)) :
    ¬ ∃ items, j = arr items := by
  rintro ⟨items, rfl⟩
  obtain ⟨_, h⟩ := Option.ite_none_left_eq_some.mp h
  unfold readFraction at h
  split at h <;> cases h

theorem readWord_more {word : Str} {j j' : Json} (h : readWord word j s = some (j', r)) :
    readWord word j (s ++ q) = some (j', r ++ q) := by
  obtain ⟨hword, h⟩ := Option.ite_none_right_eq_some.mp h
  cases h
  obtain ⟨t, rfl⟩ := List.isPrefixOf_iff_prefix.mp hword
  rw [List.append_assoc, readWord_append, List.drop_left]

theorem readValue_ne_nil {fuel : Nat} {j : Json} (h : readValue fuel s = some (j, r)) :
    skipBlanks s ≠ [] := by
  intro hs
  cases fuel with
  | zero => rw [readValue] at h; cases h
  | succ fuel =>
      rw [readValue, hs] at h
      cases h

theorem readItems_ne_nil {fuel : Nat} {items : List Json} (h : readItems fuel s = some (items, r)) :
    skipBlanks s ≠ [] := by
  cases fuel with
  | zero => rw [readItems] at h; cases h
  | succ fuel =>
      rw [readItems] at h
      obtain ⟨read, hread, _⟩ := Option.bind_eq_some_iff.mp h
      exact readValue_ne_nil hread

theorem readMembers_ne_nil {fuel : Nat} {members : List (Str × Json)}
    (h : readMembers fuel s = some (members, r)) : skipBlanks s ≠ [] := by
  cases fuel with
  | zero => rw [readMembers] at h; cases h
  | succ fuel =>
      rw [readMembers] at h
      obtain ⟨read, hread, _⟩ := Option.bind_eq_some_iff.mp h
      obtain ⟨t, ht, _⟩ := Option.bind_eq_some_iff.mp hread
      exact expect_ne_nil ht

end

/-- What `fuel` suffices to read of a text is read of a longer one, and with more fuel. -/
structure ReadsOn (fuel : Nat) : Prop where
  value : ∀ {s r j}, readValue fuel s = some (j, r) → (r ≠ [] ∨ ∃ items, j = arr items) →
    ∀ {more}, fuel ≤ more → ∀ q, readValue more (s ++ q) = some (j, r ++ q)
  items : ∀ {s r items}, readItems fuel s = some (items, r) →
    ∀ {more}, fuel ≤ more → ∀ q, readItems more (s ++ q) = some (items, r ++ q)
  members : ∀ {s r members}, readMembers fuel s = some (members, r) →
    ∀ {more}, fuel ≤ more → ∀ q, readMembers more (s ++ q) = some (members, r ++ q)

section

variable {fuel : Nat} {s r : Str}

/-- What stands between brackets is read on if its elements are. -/
theorem bracketed_more {α : Type} {close : UInt8} {empty j : Json} {wrap : α → Json}
    {elements more : Str → Option (α × Str)} {q : Str}
    (hmore : ∀ {x t}, elements s = some (x, t) →
      skipBlanks s ≠ [] ∧ more (s ++ q) = some (x, t ++ q))
    (h : (match expect close s with
      | some t => some (empty, t)
      | none => (elements s).map fun read => (wrap read.1, read.2)) = some (j, r)) :
    (match expect close (s ++ q) with
      | some t => some (empty, t)
      | none => (more (s ++ q)).map fun read => (wrap read.1, read.2)) = some (j, r ++ q) := by
  cases hclose : expect close s with
  | some t =>
      rw [hclose] at h
      cases h
      rw [expect_more hclose]
  | none =>
      rw [hclose] at h
      obtain ⟨⟨x, t⟩, hread, heq⟩ := Option.map_eq_some_iff.mp h
      cases heq
      obtain ⟨hne, hread'⟩ := hmore hread
      rw [expect_other hclose hne]
      dsimp only
      rw [hread', Option.map_some]

theorem ReadsOn.value_succ (ih : ReadsOn fuel) {j : Json}
    (h : readValue (fuel + 1) s = some (j, r)) (hend : r ≠ [] ∨ ∃ items, j = arr items)
    {more : Nat} (hmore : fuel + 1 ≤ more) (q : Str) :
    readValue more (s ++ q) = some (j, r ++ q) := by
  obtain ⟨more, rfl⟩ : ∃ k, more = k + 1 := ⟨more - 1, by omega⟩
  have hle : fuel ≤ more := Nat.le_of_succ_le_succ hmore
  rw [readValue] at h ⊢
  cases hs : skipBlanks s with
  | nil =>
      rw [hs] at h
      cases h
  | cons c rest =>
      rw [hs] at h
      rw [skipBlanks_more hs]
      dsimp only at h ⊢
      split at h
      · rename_i hc
        rw [if_pos hc]
        obtain ⟨⟨x, t⟩, hread, heq⟩ := Option.map_eq_some_iff.mp h
        cases heq
        rw [readChars_append hread, Option.map_some]
      rename_i hquote
      rw [if_neg hquote]
      split at h
      · rename_i hc
        rw [if_pos hc]
        exact bracketed_more (fun hread => ⟨readItems_ne_nil hread, ih.items hread hle q⟩) h
      rename_i harr
      rw [if_neg harr]
      split at h
      · rename_i hc
        rw [if_pos hc]
        exact bracketed_more (fun hread => ⟨readMembers_ne_nil hread, ih.members hread hle q⟩) h
      rename_i hobj
      rw [if_neg hobj]
      split at h
      · rename_i hc
        rw [if_pos hc]
        exact readWord_more h
      rename_i hnull
      rw [if_neg hnull]
      split at h
      · rename_i hc
        rw [if_pos hc]
        exact readWord_more h
      rename_i htrue
      rw [if_neg htrue]
      split at h
      · rename_i hc
        rw [if_pos hc]
        exact readWord_more h
      rename_i hfalse
      rw [if_neg hfalse]
      split at h
      · rename_i hc
        rw [if_pos hc]
        exact readNumber_more h (hend.resolve_right (readNumber_not_arr h))
      · rename_i hc
        rw [if_neg hc]
        exact readNumber_more h (hend.resolve_right (readNumber_not_arr h))

theorem ReadsOn.items_succ (ih : ReadsOn fuel) {items : List Json}
    (h : readItems (fuel + 1) s = some (items, r)) {more : Nat} (hmore : fuel + 1 ≤ more)
    (q : Str) : readItems more (s ++ q) = some (items, r ++ q) := by
  obtain ⟨more, rfl⟩ : ∃ k, more = k + 1 := ⟨more - 1, by omega⟩
  have hle : fuel ≤ more := Nat.le_of_succ_le_succ hmore
  rw [readItems] at h ⊢
  obtain ⟨⟨item, rest⟩, hitem, h⟩ := Option.bind_eq_some_iff.mp h
  dsimp only at h
  cases hcomma : expect 44 rest with
  | some t =>
      rw [hcomma] at h
      obtain ⟨⟨items', t'⟩, hread, heq⟩ := Option.map_eq_some_iff.mp h
      cases heq
      have hne : rest ≠ [] := fun hnil => expect_ne_nil hcomma (by rw [hnil]; rfl)
      have hmore' := ih.value hitem (Or.inl hne) hle q
      simp only [hmore', Option.bind_eq_bind, Option.bind_some, expect_more hcomma,
        ih.items hread hle, Option.map_some]
  | none =>
      rw [hcomma] at h
      obtain ⟨t, hclose, heq⟩ := Option.map_eq_some_iff.mp h
      cases heq
      have hne : rest ≠ [] := fun hnil => expect_ne_nil hclose (by rw [hnil]; rfl)
      have hmore' := ih.value hitem (Or.inl hne) hle q
      simp only [hmore', Option.bind_eq_bind, Option.bind_some,
        expect_other hcomma (expect_ne_nil hclose), expect_more hclose, Option.map_some]

theorem ReadsOn.members_succ (ih : ReadsOn fuel) {members : List (Str × Json)}
    (h : readMembers (fuel + 1) s = some (members, r)) {more : Nat} (hmore : fuel + 1 ≤ more)
    (q : Str) : readMembers more (s ++ q) = some (members, r ++ q) := by
  obtain ⟨more, rfl⟩ : ∃ k, more = k + 1 := ⟨more - 1, by omega⟩
  have hle : fuel ≤ more := Nat.le_of_succ_le_succ hmore
  rw [readMembers] at h ⊢
  obtain ⟨⟨key, rest⟩, hkey, h⟩ := Option.bind_eq_some_iff.mp h
  obtain ⟨⟨item, rest'⟩, hitem, h⟩ := Option.bind_eq_some_iff.mp h
  obtain ⟨start, hopen, hchars⟩ := Option.bind_eq_some_iff.mp hkey
  obtain ⟨value, hcolon, hvalue⟩ := Option.bind_eq_some_iff.mp hitem
  dsimp only at h
  cases hcomma : expect 44 rest' with
  | some t =>
      rw [hcomma] at h
      obtain ⟨⟨members', t'⟩, hread, heq⟩ := Option.map_eq_some_iff.mp h
      cases heq
      have hne : rest' ≠ [] := fun hnil => expect_ne_nil hcomma (by rw [hnil]; rfl)
      have hmore' := ih.value hvalue (Or.inl hne) hle q
      simp only [expect_more hopen, readChars_append hchars, expect_more hcolon, hmore',
        Option.bind_eq_bind, Option.bind_some, expect_more hcomma,
        ih.members hread hle, Option.map_some]
  | none =>
      rw [hcomma] at h
      obtain ⟨t, hclose, heq⟩ := Option.map_eq_some_iff.mp h
      cases heq
      have hne : rest' ≠ [] := fun hnil => expect_ne_nil hclose (by rw [hnil]; rfl)
      have hmore' := ih.value hvalue (Or.inl hne) hle q
      simp only [expect_more hopen, readChars_append hchars, expect_more hcolon, hmore',
        Option.bind_eq_bind, Option.bind_some,
        expect_other hcomma (expect_ne_nil hclose), expect_more hclose, Option.map_some]

end

theorem readsOn (fuel : Nat) : ReadsOn fuel := by
  induction fuel with
  | zero =>
      refine ⟨fun h => ?_, fun h => ?_, fun h => ?_⟩
      · rw [readValue] at h; cases h
      · rw [readItems] at h; cases h
      · rw [readMembers] at h; cases h
  | succ fuel ih =>
      exact {
        value := fun h hend _ hmore q => ih.value_succ h hend hmore q
        items := fun h _ hmore q => ih.items_succ h hmore q
        members := fun h _ hmore q => ih.members_succ h hmore q }

/-! ## Whole texts -/

theorem Layout.compact_blank : Layout.compact.Blank := ⟨nofun, nofun⟩

theorem Layout.indented_blank (n : Nat) : (Layout.indented n).Blank where
  newline := by
    intro depth b hb
    rcases List.mem_cons.mp hb with rfl | hb
    · rfl
    · rw [List.eq_of_mem_replicate hb]
      rfl
  colon := by
    intro b hb
    rw [List.mem_singleton.mp hb]
    rfl

theorem read_layOut {layout : Layout} (hlayout : layout.Blank) {j : Json}
    (hregular : j.regular = true) (hutf8 : j.Utf8Only) :
    read (j.layOut sampleFloat layout 0) = some j := by
  have hread := readValue_layOut hlayout j 0 (j.layOut sampleFloat layout 0).length []
    (Nat.le_refl _) nofun
  rw [List.append_nil] at hread
  rw [read, hread]
  exact if_pos ⟨rfl, hregular, hutf8⟩

/-- What begins with a bracket is read as an array. -/
theorem readValue_bracket {fuel : Nat} {s r : Str} {j : Json}
    (h : readValue fuel (91 :: s) = some (j, r)) : ∃ items, j = arr items := by
  cases fuel with
  | zero => rw [readValue] at h; cases h
  | succ fuel =>
      rw [readValue, skipBlanks_cons (by decide)] at h
      simp only [if_neg (show ¬ (91 : UInt8) = 34 by decide), if_true] at h
      split at h
      · exact ⟨[], (Prod.mk.inj (Option.some.inj h)).1.symm⟩
      · obtain ⟨read, _, heq⟩ := Option.map_eq_some_iff.mp h
        exact ⟨read.1, (Prod.mk.inj heq).1.symm⟩

theorem read_cut {layout : Layout} (hlayout : layout.Blank) (items : List Json) {k : Nat}
    (hk : k < ((arr items).layOut sampleFloat layout 0).length) :
    read (((arr items).layOut sampleFloat layout 0).take k) = none := by
  have hall := readValue_layOut hlayout (arr items) 0
    ((arr items).layOut sampleFloat layout 0).length [] (Nat.le_refl _) nofun
  rw [List.append_nil] at hall
  generalize htext : (arr items).layOut sampleFloat layout 0 = text at hk hall ⊢
  unfold read
  split
  · rename_i j rest hpart
    have hopen : ∃ items, j = arr items := by
      obtain ⟨t, ht⟩ : ∃ t, text = 91 :: t := by
        rw [← htext]
        cases items <;> exact ⟨_, rfl⟩
      cases k with
      | zero => cases hpart
      | succ k =>
          rw [ht] at hpart
          exact readValue_bracket hpart
    have hfuel : (text.take k).length + 1 ≤ text.length + 1 := by
      rw [List.length_take]
      omega
    have hmore := (readsOn _).value hpart (Or.inr hopen) hfuel (text.drop k)
    rw [List.take_append_drop, hall] at hmore
    have hnil := (Prod.mk.inj (Option.some.inj hmore)).2
    have hdrop := (List.append_eq_nil_iff.mp hnil.symm).2
    have hlength := congrArg List.length hdrop
    rw [List.length_drop, List.length_nil] at hlength
    omega
  · rfl

/-! ## What the text is made of -/

theorem sampleFloat_ascii (bits : UInt64) : Utf8.Ascii (sampleFloat bits) := by
  intro b hb
  rcases List.mem_append.mp hb with hb | hb
  · exact toDecimal_ascii _ b hb
  · exact (show Utf8.Ascii (lit ".0") by decide) b hb

theorem Layout.Blank.utf8 {layout : Layout} (h : layout.Blank) :
    Parts sampleFloat layout Utf8.Text := by
  have hblank : ∀ b, isBlank b = true → b ≤ 0x7F := by
    intro b hb
    simp only [isBlank, decide_eq_true_eq] at hb
    rcases hb with rfl | rfl | rfl | rfl <;> decide
  exact {
    append := Utf8.Text.append
    mark := fun b hb => Utf8.Ascii.text fun c hc => by
      rw [List.mem_singleton.mp hc]
      exact (show Utf8.Ascii [91, 93, 123, 125, 44, 58] by decide) b hb
    word := ⟨Utf8.Ascii.text (by decide), Utf8.Ascii.text (by decide),
      Utf8.Ascii.text (by decide)⟩
    int := printInt_text
    float := fun bits => (sampleFloat_ascii bits).text
    string := fun _ => quote_text
    newline := fun depth => Utf8.Ascii.text fun b hb => hblank b (h.newline depth b hb)
    colon := Utf8.Ascii.text fun b hb => hblank b (h.colon b hb) }

theorem toDecimal_noNul (n : Nat) : 0 ∉ toDecimal n := by
  intro h
  have hdigit := toDecimal_digits n 0 h
  revert hdigit
  decide

theorem escapeByte_noNul (b : UInt8) : 0 ∉ escapeByte b := by
  have hall : ∀ k : Fin 256, 0 ∉ escapeByte (UInt8.ofNat k) := by decide +kernel
  exact byte_below (motive := fun b => 0 ∉ escapeByte b) hall b.toNat_lt

theorem quote_noNul (s : Str) : 0 ∉ quote s := by
  intro h
  rcases List.mem_append.mp h with h | h
  · rcases List.mem_append.mp h with h | h
    · revert h
      decide
    · obtain ⟨b, _, hb⟩ := List.mem_flatMap.mp h
      exact escapeByte_noNul b hb
  · revert h
    decide

theorem Layout.Blank.noNul {layout : Layout} (h : layout.Blank) :
    Parts sampleFloat layout fun s => 0 ∉ s where
  append := fun hs ht h => (List.mem_append.mp h).elim hs ht
  mark := by decide
  word := by decide
  int := by
    intro i
    unfold printInt
    split
    · exact fun h => (List.mem_append.mp h).elim (by decide) (toDecimal_noNul _)
    · exact toDecimal_noNul _
  float := fun bits h => (List.mem_append.mp h).elim (toDecimal_noNul _) (by decide)
  string := fun s _ => quote_noNul s
  newline := fun depth hmem => absurd (h.newline depth 0 hmem) (by decide)
  colon := fun hmem => absurd (h.colon 0 hmem) (by decide)

end Json

/-! ## The library -/

/-- What the library documents of a value it dumps: the text is read back, it holds no
NUL byte, and the text of an array is no text any more when its end is missing. Nothing is
no text either. -/
structure JsonLib.Faithful (lib : JsonLib) : Prop extends lib.StrictUtf8 where
  parse_dump : ∀ j text, j.regular = true → lib.dump j = some text → lib.parse text = some j
  parse_dumpIndented : ∀ n j text, j.regular = true → lib.dumpIndented n j = some text →
    lib.parse text = some j
  parse_regular : ∀ text j, lib.parse text = some j → j.regular = true
  parse_nil : lib.parse [] = none
  dump_noNul : ∀ j text, lib.dump j = some text → 0 ∉ text
  truncated : ∀ n items text k, lib.dumpIndented n (.arr items) = some text → k < text.length →
    lib.parse (text.take k) = none

/-- The printer with both layouts, and the reader. -/
def readerLib : JsonLib where
  parse := Json.read
  dump := fun j => if j.Utf8Only then some (j.layOut Json.sampleFloat .compact 0) else none
  dumpIndented := fun n j =>
    if j.Utf8Only then some (j.layOut Json.sampleFloat (.indented n) 0) else none
  floatToInt := fun _ => 0

theorem Json.read_eq {text : Str} {j : Json} (h : Json.read text = some j) :
    j.regular = true ∧ j.Utf8Only := by
  unfold Json.read at h
  split at h
  · obtain ⟨⟨_, hregular, hutf8⟩, heq⟩ := Option.ite_none_right_eq_some.mp h
    cases heq
    exact ⟨hregular, hutf8⟩
  · cases h

theorem readerLib_faithful : readerLib.Faithful where
  dump_isSome := fun j => by simp [readerLib]
  dump_text := by
    intro j text h
    obtain ⟨hutf8, heq⟩ := Option.ite_none_right_eq_some.mp h
    cases heq
    exact Json.Layout.compact_blank.utf8.layOut 0 j hutf8
  dumpIndented_isSome := fun n j => by simp [readerLib]
  dumpIndented_text := by
    intro n j text h
    obtain ⟨hutf8, heq⟩ := Option.ite_none_right_eq_some.mp h
    cases heq
    exact (Json.Layout.indented_blank n).utf8.layOut 0 j hutf8
  parse_utf8 := fun text j h => (Json.read_eq h).2
  parse_dump := by
    intro j text hregular h
    obtain ⟨hutf8, heq⟩ := Option.ite_none_right_eq_some.mp h
    cases heq
    exact Json.read_layOut Json.Layout.compact_blank hregular hutf8
  parse_dumpIndented := by
    intro n j text hregular h
    obtain ⟨hutf8, heq⟩ := Option.ite_none_right_eq_some.mp h
    cases heq
    exact Json.read_layOut (Json.Layout.indented_blank n) hregular hutf8
  parse_regular := fun text j h => (Json.read_eq h).1
  parse_nil := rfl
  dump_noNul := by
    intro j text h
    obtain ⟨hutf8, heq⟩ := Option.ite_none_right_eq_some.mp h
    cases heq
    exact Json.Layout.compact_blank.noNul.layOut 0 j hutf8
  truncated := by
    intro n items text k h hk
    obtain ⟨_, heq⟩ := Option.ite_none_right_eq_some.mp h
    cases heq
    exact Json.read_cut (Json.Layout.indented_blank n) items hk

end JiuwenCore
