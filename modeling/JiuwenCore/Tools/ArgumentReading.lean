import JiuwenCore.Lib.JsonSyntax
import JiuwenCore.Tools.Arguments
import JiuwenCore.Utils.ToolNames

/-!
# What the readers make of a JSON text

Where the first `"key"` of the text is the name of a member, the readers see the text behind
its colon. What they answer is then compared, kind by kind, with the value of the member.
-/

namespace JiuwenCore.Tools

open HistoryStore (stoi isSpace signed)
open JsonSyntax

/-! ## Strings as they are scanned -/

/-- What a piece of a string becomes. -/
def scanPiece (escaped : UInt8 → Str) : Piece → Str
  | .plain b _ => [b]
  | .short escape => escaped escape.letter
  | .unit u _ => escaped 117 ++ u.text
  | .pair high low _ => escaped 117 ++ (high.text ++ (escaped 117 ++ low.text))

def scanPieces (escaped : UInt8 → Str) (pieces : Pieces) : Str :=
  pieces.flatMap (scanPiece escaped)

theorem scanString_plain (escaped : UInt8 → Str) {b : UInt8} (hquote : b ≠ 34)
    (hslash : b ≠ 92) (rest : Str) :
    scanString escaped (b :: rest) = b :: scanString escaped rest := by
  rw [scanString]
  · rintro c rest' rfl
    exact absurd rfl hslash
  · rintro rfl
    exact absurd rfl hquote

theorem hexDigit_plain (digit : HexDigit) : digit.byte ≠ 34 ∧ digit.byte ≠ 92 := by
  have hhex := digit.isHex
  constructor
  · intro h
    rw [h] at hhex
    revert hhex
    decide
  · intro h
    rw [h] at hhex
    revert hhex
    decide

theorem scanString_unit (escaped : UInt8 → Str) (unit : CodeUnit) (rest : Str) :
    scanString escaped (unit.text ++ rest) = unit.text ++ scanString escaped rest := by
  have hdigit : ∀ (digit : HexDigit) (rest : Str),
      scanString escaped (digit.byte :: rest) = digit.byte :: scanString escaped rest :=
    fun digit rest =>
      scanString_plain escaped (hexDigit_plain digit).1 (hexDigit_plain digit).2 rest
  simp only [CodeUnit.text, List.cons_append, List.nil_append, hdigit]

theorem scanString_text (escaped : UInt8 → Str) (pieces : Pieces) (rest : Str) :
    scanString escaped (pieces.text ++ 34 :: rest) = scanPieces escaped pieces := by
  induction pieces with
  | nil => simp [Pieces.text, scanPieces, scanString]
  | cons piece pieces ih =>
      rw [Pieces.text, List.flatMap_cons, ← Pieces.text, scanPieces, List.flatMap_cons,
        ← scanPieces, ← ih, List.append_assoc]
      cases piece with
      | plain b h => exact scanString_plain escaped h.2.1 h.2.2 _
      | short escape => simp [Piece.text, scanString, scanPiece]
      | unit u h => simp [Piece.text, scanString, scanPiece, scanString_unit]
      | pair high low h => simp [Piece.text, scanString, scanPiece, scanString_unit]

/-- A reader of escapes, with the letters it reads right. None reads `\u`. -/
structure Spelling (escaped : UInt8 → Str) (letters : Str) : Prop where
  short : ∀ escape : ShortEscape, escaped escape.letter = [escape.byte] ↔ escape.letter ∈ letters
  unit : 117 ∉ letters
  pos : ∀ c, 0 < (escaped c).length

theorem spelling_written : Spelling escapeWritten [] where
  short escape := by cases escape <;> decide
  unit := by decide
  pos c := by simp [escapeWritten]

theorem spelling_dropped : Spelling escapeDropped [34, 92, 47] where
  short escape := by cases escape <;> decide
  unit := by decide
  pos c := by simp [escapeDropped]

theorem spelling_decoded : Spelling escapeDecoded [34, 92, 47, 110, 116] where
  short escape := by cases escape <;> decide
  unit := by decide
  pos c := by
    unfold escapeDecoded
    split
    · simp
    · split <;> simp

section Spelling

variable {escaped : UInt8 → Str} {letters : Str}

theorem length_unit (unit : CodeUnit) : unit.text.length = 4 := rfl

theorem Spelling.length_le (h : Spelling escaped letters) (piece : Piece) :
    piece.decoded.length ≤ (scanPiece escaped piece).length := by
  have hpos := h.pos 117
  cases piece with
  | plain b hb => simp [Piece.decoded, scanPiece]
  | short escape => exact h.pos _
  | unit u hu =>
      have hle := length_utf8_le u.value
      simp only [Piece.decoded, scanPiece, List.length_append, length_unit]
      omega
  | pair high low hu =>
      have hle := length_utf8_le (0x10000 + (high.value - 0xD800) * 1024 + (low.value - 0xDC00))
      simp only [Piece.decoded, scanPiece, List.length_append, length_unit]
      omega

theorem Spelling.piece_iff (h : Spelling escaped letters) (piece : Piece) :
    scanPiece escaped piece = piece.decoded ↔ ∀ c ∈ piece.escapeLetter, c ∈ letters := by
  have hpos := h.pos 117
  have hunit := h.unit
  cases piece with
  | plain b hb => simp [scanPiece, Piece.decoded, Piece.escapeLetter]
  | short escape => simpa [scanPiece, Piece.decoded, Piece.escapeLetter] using h.short escape
  | unit u hu =>
      refine iff_of_false (fun heq => ?_) (fun hmem => hunit (hmem 117 rfl))
      have hlength := congrArg List.length heq
      have hle := length_utf8_le u.value
      simp only [Piece.decoded, scanPiece, List.length_append, length_unit] at hlength
      omega
  | pair high low hu =>
      refine iff_of_false (fun heq => ?_) (fun hmem => hunit (hmem 117 rfl))
      have hlength := congrArg List.length heq
      have hle := length_utf8_le (0x10000 + (high.value - 0xD800) * 1024 + (low.value - 0xDC00))
      simp only [Piece.decoded, scanPiece, List.length_append, length_unit] at hlength
      omega

/-- A string is read right where it has no escapes but the ones the reader knows. -/
theorem Spelling.pieces_iff (h : Spelling escaped letters) (pieces : Pieces) :
    scanPieces escaped pieces = pieces.decoded ↔ pieces.Escapes letters := by
  rw [scanPieces, Pieces.decoded, flatMap_eq_iff fun piece _ => h.length_le piece]
  exact forall₂_congr fun piece _ => h.piece_iff piece

end Spelling

/-! ## The text behind a name -/

/-- The first `"key"` of the text is the name of the member, and no later member has it. -/
structure OwnName (doc : Document) (key : Str) (front : List Member) (member : Member)
    (back : List Member) : Prop where
  split : doc.members = front ++ member :: back
  spelled : member.name.text = key
  named : member.name.decoded = key
  last : ∀ m ∈ back, m.name.decoded ≠ key
  first : indexOf (34 :: key ++ [34]) doc.text = some (doc.lead front member).length

theorem blank_isBlank {b : UInt8} (h : blank b = true) : IsBlank b := by
  have hb : b = 32 ∨ b = 9 := by simpa [blank] using h
  rcases hb with rfl | rfl
  · exact .inl rfl
  · exact .inr (.inl rfl)

theorem digit_not_space {b : UInt8} (h : 48 ≤ b ∧ b ≤ 57) : isSpace b = false ∧ b ≠ 43 := by
  simp only [UInt8.le_iff_toNat_le, UInt8.reduceToNat] at h
  simp only [isSpace, UInt8.le_iff_toNat_le, ← UInt8.toNat_inj, ne_eq, UInt8.reduceToNat,
    decide_eq_false_iff_not]
  omega

/-- No value starts with white space, or with a plus sign. -/
theorem value_start {value : Value} {b : UInt8} {rest : Str} (h : value.text = b :: rest) :
    isSpace b = false ∧ b ≠ 43 := by
  obtain ⟨c, rest', htext, hc⟩ := value.text_head
  rw [h] at htext
  cases htext
  cases value with
  | null => simp [hc, isSpace]
  | bool v => cases v <;> simp [hc, isSpace]
  | number n =>
      rcases hc with rfl | hdigit
      · simp [isSpace]
      · exact digit_not_space hdigit
  | string s => simp [hc, isSpace]
  | array inner items => simp [hc, isSpace]
  | object inner members => simp [hc, isSpace]

theorem value_not_blank {value : Value} {b : UInt8} {rest : Str} (h : value.text = b :: rest) :
    ¬ IsBlank b := by
  intro hb
  have hspace := (value_start h).1
  rcases hb with rfl | rfl | rfl | rfl <;> cases hspace

/-- The first byte tells a string, a boolean and a number from everything else. -/
theorem value_kind {value : Value} {b : UInt8} {rest : Str} (h : value.text = b :: rest) :
    (b = 34 → ∃ s, value = .string s) ∧ (b = 116 → value = .bool true) ∧
      (b = 102 → value = .bool false) ∧ (b = 45 ∨ 48 ≤ b ∧ b ≤ 57 → ∃ n, value = .number n) := by
  obtain ⟨c, rest', htext, hc⟩ := value.text_head
  rw [h] at htext
  cases htext
  cases value with
  | null => simp [hc]
  | bool v => cases v <;> simp [hc]
  | number n =>
      have hne : b ≠ 34 ∧ b ≠ 116 ∧ b ≠ 102 := by
        refine ⟨?_, ?_, ?_⟩ <;>
          · rintro rfl
            simp at hc
      simp [hne]
  | string s => simp [hc]
  | array inner items => simp [hc]
  | object inner members => simp [hc]

theorem dropWhile_blank_value (s : Str) (value : Value) (rest : Str) :
    (s ++ (value.text ++ rest)).dropWhile blank = s.dropWhile blank ++ (value.text ++ rest) := by
  obtain ⟨b, text, htext, -⟩ := value.text_head
  have hb : blank b = false := by
    rw [Bool.eq_false_iff]
    exact fun h => value_not_blank htext (blank_isBlank h)
  induction s with
  | nil => simp [htext, hb]
  | cons c s ih =>
      rw [List.cons_append, List.dropWhile_cons, List.dropWhile_cons]
      split
      · exact ih
      · rfl

theorem drop_behind {s u rest : Str} {pos : Nat} {b : UInt8} (h : s.drop pos = u ++ b :: rest) :
    s.drop (u.length + pos + 1) = rest := by
  rw [show u.length + pos + 1 = pos + (u.length + 1) by omega, ← List.drop_drop, h,
    ← List.drop_drop, List.drop_left]
  rfl

theorem behindColon_eq (member : Member) {s rest : Str} {pos : Nat}
    (h : s.drop pos = member.afterColon.1 ++ (member.value.text ++ rest)) :
    ((findNonBlank s pos).map fun valStart => s.drop valStart) =
      some (member.afterColon.1.dropWhile blank ++ (member.value.text ++ rest)) := by
  have hdropped := dropWhile_blank_value member.afterColon.1 member.value rest
  have hfound := findIdx_blank (s.drop pos)
  rw [← h] at hdropped
  rw [findNonBlank]
  cases hk : (s.drop pos).findIdx? fun c => c ≠ 32 ∧ c ≠ 9 with
  | none =>
      rw [hk] at hfound
      simp only at hfound
      obtain ⟨b, text, htext, -⟩ := member.value.text_head
      rw [hdropped, htext] at hfound
      simp at hfound
  | some k =>
      rw [hk] at hfound
      simp only [Option.map_some, Option.some.injEq]
      rw [← hdropped, ← hfound, List.drop_drop, Nat.add_comm]

/-- The first colon behind the name is the one of the member. -/
theorem valueOf_own {doc : Document} {key : Str} {front back : List Member} {member : Member}
    (h : OwnName doc key front member back) :
    valueOf doc.text key = some (member.afterColon.1.dropWhile blank ++
      (member.value.text ++ doc.behind member back)) := by
  have htext := doc.text_split h.split
  rw [h.spelled] at htext
  have hcolon : (58 : UInt8) ∉ member.beforeColon.1 := by
    intro hmem
    have hblank := member.beforeColon.2 58 hmem
    revert hblank
    simp [IsBlank]
  have hname : doc.text.drop ((doc.lead front member).length + (34 :: key ++ [34]).length) =
      member.beforeColon.1 ++ 58 :: (member.afterColon.1 ++
        (member.value.text ++ doc.behind member back)) := by
    rw [← List.drop_drop, htext, List.drop_left]
    exact List.drop_left
  rw [valueOf, findFrom_eq (by simp), List.drop_zero, h.first]
  simp only [Option.map_some, Nat.add_zero]
  rw [findFrom_eq (by simp), hname, indexOf_byte_of hcolon]
  simp only [Option.map_some]
  exact behindColon_eq member (drop_behind hname)

/-! ## Values as they are read -/

/-- The value stands in the line of its colon. -/
def SameLine (member : Member) : Prop := ∀ b ∈ member.afterColon.1, b = 32 ∨ b = 9

instance (member : Member) : Decidable (SameLine member) :=
  inferInstanceAs (Decidable (∀ b ∈ member.afterColon.1, b = 32 ∨ b = 9))

theorem sameLine_iff (member : Member) :
    SameLine member ↔ member.afterColon.1.dropWhile blank = [] := by
  rw [List.dropWhile_eq_nil_iff, SameLine]
  simp [blank]

/-- Where it does not, what is read starts with a line break. -/
theorem otherLine_head {member : Member} (h : ¬ SameLine member) :
    ∃ b rest, member.afterColon.1.dropWhile blank = b :: rest ∧ (b = 10 ∨ b = 13) := by
  rw [sameLine_iff] at h
  cases hdrop : member.afterColon.1.dropWhile blank with
  | nil => exact absurd hdrop h
  | cons b rest =>
      have hmem : b ∈ member.afterColon.1 := by
        refine (List.dropWhile_sublist blank).subset ?_
        rw [hdrop]
        exact List.mem_cons_self
      have hnot : blank b = false := by
        have hhead := List.head?_dropWhile_not blank member.afterColon.1
        rw [hdrop] at hhead
        simpa using hhead
      refine ⟨b, rest, rfl, ?_⟩
      rcases member.afterColon.2 b hmem with rfl | rfl | rfl | rfl
      · cases hnot
      · cases hnot
      · exact .inl rfl
      · exact .inr rfl

section Found

variable {doc : Document} {key : Str} {front back : List Member} {member : Member}

theorem valueOf_sameLine (h : OwnName doc key front member back) (hline : SameLine member) :
    valueOf doc.text key = some (member.value.text ++ doc.behind member back) := by
  rw [valueOf_own h, (sameLine_iff member).mp hline, List.nil_append]

theorem valueOf_otherLine (h : OwnName doc key front member back) (hline : ¬ SameLine member) :
    ∃ b rest, valueOf doc.text key = some (b :: rest) ∧ (b = 10 ∨ b = 13) := by
  obtain ⟨b, rest, hdrop, hb⟩ := otherLine_head hline
  exact ⟨b, _, by rw [valueOf_own h, hdrop]; rfl, hb⟩

theorem scanValue_other {escaped : UInt8 → Str} {b : UInt8} (hb : b ≠ 34) (rest : Str) :
    scanValue escaped (some (b :: rest)) = [] := by
  rw [scanValue]
  rintro rest' ⟨⟩
  exact hb rfl

/-- What a reader of strings answers for a value of its member. -/
def scanned (escaped : UInt8 → Str) (member : Member) : Str :=
  match member.value with
  | .string s => scanPieces escaped s
  | _ => []

theorem scanValue_own (escaped : UInt8 → Str) (h : OwnName doc key front member back) :
    scanValue escaped (valueOf doc.text key) =
      if SameLine member then scanned escaped member else [] := by
  split
  · rename_i hline
    rw [valueOf_sameLine h hline]
    by_cases hstring : ∃ s, member.value = .string s
    · obtain ⟨s, hs⟩ := hstring
      rw [scanned, hs, Value.text, List.cons_append, List.append_assoc, List.singleton_append]
      exact scanString_text escaped s _
    · obtain ⟨b, text, htext, -⟩ := member.value.text_head
      have hnone : scanned escaped member = [] := by
        rw [scanned]
        split
        · rename_i s hs
          exact absurd ⟨s, hs⟩ hstring
        · rfl
      rw [hnone, htext]
      exact scanValue_other (fun hb => hstring ((value_kind htext).1 hb)) _
  · rename_i hline
    obtain ⟨b, rest, hvalue, hb⟩ := valueOf_otherLine h hline
    rw [hvalue]
    refine scanValue_other ?_ rest
    rintro rfl
    simp at hb

/-! ## Numbers as they are read -/

/-- The integers an `int` holds. -/
def fits (i : Int) : Option Int := if -2 ^ 31 ≤ i ∧ i < 2 ^ 31 then some i else none

theorem dropWhile_isSpace {w : Str} (h : ∀ b ∈ w, IsBlank b) {b : UInt8} (hb : isSpace b = false)
    (rest : Str) : (w ++ b :: rest).dropWhile isSpace = b :: rest := by
  rw [List.dropWhile_append_of_pos, List.dropWhile_cons_of_neg (by simp [hb])]
  intro c hc
  rcases h c hc with rfl | rfl | rfl | rfl <;> rfl

/-- Behind the digits of a number stands no digit. -/
theorem whole_end (n : Number) {b : UInt8} (hb : IsBlank b ∨ b = 44 ∨ b = 125) (rest : Str) :
    (n.whole.1 ++ (Number.fractionText n.fraction ++ (Number.exponentText n.exponent ++
      b :: rest))).takeWhile Json.isDigit = n.whole.1 := by
  have hdigits : ∀ c ∈ n.whole.1, Json.isDigit c = true := by
    intro c hc
    simpa [Json.isDigit] using n.whole.2.2 c hc
  have hend : ∀ s : Str, (∀ c ∈ s.head?, Json.isDigit c = false) →
      (n.whole.1 ++ s).takeWhile Json.isDigit = n.whole.1 := by
    intro s hs
    rw [List.takeWhile_append_of_pos hdigits]
    cases s with
    | nil => simp
    | cons c s => simp [hs c rfl]
  refine hend _ fun c hc => ?_
  cases hfraction : n.fraction with
  | some digits =>
      simp only [hfraction, Number.fractionText, List.cons_append, List.head?_cons,
        Option.mem_some_iff] at hc
      subst hc
      rfl
  | none =>
      cases hexponent : n.exponent with
      | some e =>
          simp only [hfraction, hexponent, Number.fractionText, Number.exponentText,
            List.nil_append, List.cons_append, List.head?_cons, Option.mem_some_iff] at hc
          subst hc
          cases e.upper <;> rfl
      | none =>
          simp only [hfraction, hexponent, Number.fractionText, Number.exponentText,
            List.nil_append, List.head?_cons, Option.mem_some_iff] at hc
          subst hc
          rcases hb with (rfl | rfl | rfl | rfl) | rfl | rfl <;> rfl

theorem stoi_number {w : Str} (hw : ∀ b ∈ w, IsBlank b) (n : Number) {b : UInt8}
    (hb : IsBlank b ∨ b = 44 ∨ b = 125) (rest : Str) :
    stoi (w ++ (n.text ++ b :: rest)) = fits n.wholePart := by
  obtain ⟨c, digits, hwhole⟩ := List.exists_cons_of_ne_nil n.whole.2.1
  have hdigit : 48 ≤ c ∧ c ≤ 57 := n.whole.2.2 c (by simp [hwhole])
  have hend := whole_end n hb rest
  have hread : ∀ sign : Int, ∀ s : Str, s.dropWhile isSpace = s →
      signed s = (sign, n.whole.1 ++ (Number.fractionText n.fraction ++
        (Number.exponentText n.exponent ++ b :: rest))) →
      stoi s = fits (sign * n.whole.value) := by
    intro sign s hs hsigned
    have hvalue : ofDecimal n.whole.1 = n.whole.value := rfl
    rw [stoi, hs, hsigned]
    simp only [hend, hvalue, fits, n.whole.2.1, ne_eq, not_false_eq_true, true_and]
  have hstart : ∀ (first : UInt8) (s : Str), isSpace first = false →
      stoi (w ++ first :: s) = stoi (first :: s) := by
    intro first s hfirst
    rw [stoi, dropWhile_isSpace hw hfirst, stoi, List.dropWhile_cons_of_neg (by simp [hfirst])]
  rw [Number.text, Number.wholePart]
  cases n.negative with
  | true =>
      simp only [if_true, List.cons_append, List.append_assoc]
      rw [hstart 45 _ rfl]
      exact hread (-1) _ rfl rfl
  | false =>
      have hspace := (digit_not_space hdigit).1
      simp only [Bool.false_eq_true, if_false, List.nil_append, List.append_assoc]
      have hsigned := HistoryStore.signed_of_digit (c := c) (by simpa [Json.isDigit] using hdigit)
        (digits ++ (Number.fractionText n.fraction ++ (Number.exponentText n.exponent ++ b :: rest)))
      rw [hwhole, List.cons_append, hstart c _ hspace]
      refine hread 1 _ ?_ ?_
      · rw [List.dropWhile_cons_of_neg (by simp [hspace])]
      · rw [hsigned, hwhole, List.cons_append]

theorem stoi_other {w : Str} (hw : ∀ b ∈ w, IsBlank b) {value : Value}
    (hvalue : ∀ n, value ≠ .number n) (rest : Str) : stoi (w ++ (value.text ++ rest)) = none := by
  obtain ⟨b, text, htext, -⟩ := value.text_head
  have hnumber : ¬ (b = 45 ∨ 48 ≤ b ∧ b ≤ 57) := by
    intro hb
    obtain ⟨n, hn⟩ := (value_kind htext).2.2.2 hb
    exact hvalue n hn
  obtain ⟨hspace, hplus⟩ := value_start htext
  have hdigit : Json.isDigit b = false := decide_eq_false fun hb => hnumber (.inr hb)
  have hsigned : signed (b :: (text ++ rest)) = (1, b :: (text ++ rest)) := by
    unfold signed
    split
    · rename_i heq
      exact absurd (.inl (List.cons.inj heq).1) hnumber
    · rename_i heq
      exact absurd (List.cons.inj heq).1 hplus
    · rfl
  rw [htext, List.cons_append, stoi, dropWhile_isSpace hw hspace, hsigned]
  simp [hdigit]

theorem parseInt_own (h : OwnName doc key front member back) (default : Int) :
    parseInt doc.text key default =
      match member.value with
      | .number n => (fits n.wholePart).getD default
      | _ => default := by
  have hw : ∀ b ∈ member.afterColon.1.dropWhile blank, IsBlank b :=
    fun b hb => member.afterColon.2 b ((List.dropWhile_sublist blank).subset hb)
  obtain ⟨b, rest, hbehind, hb⟩ := doc.behind_head member back
  rw [parseInt, valueOf_own h, Option.bind_some]
  by_cases hnumber : ∃ n, member.value = .number n
  · obtain ⟨n, hn⟩ := hnumber
    rw [hn, Value.text, hbehind, stoi_number hw n hb rest]
  · have hvalue : ∀ n, member.value ≠ .number n := fun n hn => hnumber ⟨n, hn⟩
    rw [stoi_other hw hvalue]
    split
    · rename_i n hn
      exact absurd hn (hvalue n)
    · rfl

theorem EditFileTool.parseStringField_scan {json : Str} {b : UInt8} {rest : Str}
    (hvalue : valueOf json key = some (b :: rest)) (htrue : b ≠ 116) (hfalse : b ≠ 102) :
    EditFileTool.parseStringField json key = scanValue escapeDecoded (valueOf json key) := by
  rw [EditFileTool.parseStringField, hvalue]
  split
  · rename_i heq
    cases heq
    exact absurd rfl htrue
  · rename_i heq
    cases heq
    exact absurd rfl hfalse
  · rfl

/-- `edit_file` reads a boolean of its line as a string. -/
theorem EditFileTool.parseStringField_own (h : OwnName doc key front member back) :
    EditFileTool.parseStringField doc.text key =
      if SameLine member then
        match member.value with
        | .bool true => lit "true"
        | .bool false => lit "false"
        | _ => scanned escapeDecoded member
      else [] := by
  have hscan := scanValue_own escapeDecoded h
  by_cases hline : SameLine member
  · have hvalue := valueOf_sameLine h hline
    obtain ⟨b, text, htext, -⟩ := member.value.text_head
    obtain ⟨-, htrue, hfalse, -⟩ := value_kind htext
    rw [if_pos hline] at hscan ⊢
    by_cases hbool : ∃ v, member.value = .bool v
    · obtain ⟨v, hv⟩ := hbool
      rw [EditFileTool.parseStringField, hvalue, hv]
      cases v <;> rfl
    · rw [EditFileTool.parseStringField_scan (by rw [hvalue, htext]; rfl)
        (fun hb => hbool ⟨true, htrue hb⟩) (fun hb => hbool ⟨false, hfalse hb⟩), hscan]
      split
      · exact absurd ⟨_, ‹_›⟩ hbool
      · exact absurd ⟨_, ‹_›⟩ hbool
      · rfl
  · obtain ⟨b, rest, hvalue, hb⟩ := valueOf_otherLine h hline
    rw [if_neg hline] at hscan ⊢
    rw [← hscan]
    refine EditFileTool.parseStringField_scan hvalue ?_ ?_ <;>
      · rintro rfl
        simp at hb

end Found

end JiuwenCore.Tools
