import JiuwenCore.JsonText
import JiuwenCore.Utils.ToolParser

/-!
# Reading printed JSON with the tool parser

`ExtractJson` counts braces and quotes without parsing. On a printed object it stops
exactly at its end, whatever the object holds.
-/

namespace JiuwenCore

/-! ## Scanning -/

/-- The scanner of `ExtractJson` passes the text, from one depth and quotation to
another, without meeting the brace it looks for. -/
def Scans (depth : Nat) (inString : Bool) (text : Str) (depth' : Nat) (inString' : Bool) : Prop :=
  ∀ rest, closingBrace depth inString (text ++ rest) =
    (closingBrace depth' inString' rest).map (· + text.length)

theorem Scans.nil {depth : Nat} {inString : Bool} : Scans depth inString [] depth inString :=
  fun rest => by cases h : closingBrace depth inString rest <;> simp [h]

theorem Scans.append {d d' d'' : Nat} {q q' q'' : Bool} {s t : Str} (hs : Scans d q s d' q')
    (ht : Scans d' q' t d'' q'') : Scans d q (s ++ t) d'' q'' := by
  intro rest
  rw [List.append_assoc, hs, ht, Option.map_map, List.length_append]
  congr 1
  funext n
  simp only [Function.comp_apply]
  omega

/-- Bytes that mean nothing to the scanner outside a string. -/
def Unquoted (b : UInt8) : Prop := b ≠ 34 ∧ b ≠ 92 ∧ b ≠ 123 ∧ b ≠ 125

instance (b : UInt8) : Decidable (Unquoted b) := inferInstanceAs (Decidable (_ ∧ _))

theorem closingBrace_cons {depth : Nat} {inString : Bool} {b : UInt8} (h : b ≠ 92) (rest : Str) :
    closingBrace depth inString (b :: rest) =
      let inString := if b = 34 then !inString else inString
      if inString then (closingBrace depth inString rest).map (· + 1)
      else if b = 123 then (closingBrace (depth + 1) inString rest).map (· + 1)
      else if b = 125 then
        if depth = 1 then some 1 else (closingBrace (depth - 1) inString rest).map (· + 1)
      else (closingBrace depth inString rest).map (· + 1) := by
  rw [closingBrace]
  exact fun _ _ hb => absurd hb h

theorem Scans.unquoted {depth : Nat} {text : Str} (h : ∀ b ∈ text, Unquoted b) :
    Scans depth false text depth false := by
  induction text with
  | nil => exact .nil
  | cons b text ih =>
      obtain ⟨⟨hquote, hescape, hopen, hclose⟩, htext⟩ := List.forall_mem_cons.mp h
      have hb : Scans depth false [b] depth false := by
        intro rest
        simp [closingBrace_cons hescape, hquote, hopen, hclose]
      exact hb.append (ih htext)

theorem Scans.quoted {depth : Nat} {b : UInt8} (hquote : b ≠ 34) (hescape : b ≠ 92) :
    Scans depth true [b] depth true := by
  intro rest
  simp [closingBrace_cons hescape, hquote]

theorem Scans.escape {depth : Nat} {inString : Bool} (b : UInt8) :
    Scans depth inString [92, b] depth inString := by
  intro rest
  simp [closingBrace]

theorem Scans.quote {depth : Nat} {inString : Bool} :
    Scans depth inString [34] depth (!inString) := by
  intro rest
  cases inString <;> simp [closingBrace_cons]

theorem Scans.opening {depth : Nat} : Scans depth false [123] (depth + 1) false := by
  intro rest
  simp [closingBrace_cons]

theorem Scans.closing {depth : Nat} : Scans (depth + 2) false [125] (depth + 1) false := by
  intro rest
  simp [closingBrace_cons]

/-! ## Scanning a printed value -/

namespace Json

theorem hexDigit_quoted {n : UInt8} (h : n < 16) : hexDigit n ≠ 34 ∧ hexDigit n ≠ 92 := by
  have hall : ∀ k : Fin 16, hexDigit (UInt8.ofNat k) ≠ 34 ∧ hexDigit (UInt8.ofNat k) ≠ 92 := by
    decide
  exact byte_below (motive := fun n => hexDigit n ≠ 34 ∧ hexDigit n ≠ 92) hall
    (UInt8.lt_iff_toNat_lt.mp h)

theorem escapeByte_scans (depth : Nat) (b : UInt8) : Scans depth true (escapeByte b) depth true := by
  unfold escapeByte
  split
  · exact .escape b
  rename_i hspecial
  iterate 5
    split
    · exact .escape _
  split
  · rename_i hcontrol
    have hhigh : b / 16 < 16 := by
      rw [UInt8.lt_iff_toNat_lt, UInt8.toNat_div]
      have hb := b.toNat_lt
      simp only [UInt8.reduceToNat]
      omega
    have hlow : b % 16 < 16 := by
      rw [UInt8.lt_iff_toNat_lt, UInt8.toNat_mod]
      simp only [UInt8.reduceToNat]
      omega
    have hdigits : Scans depth true [hexDigit (b / 16), hexDigit (b % 16)] depth true :=
      (Scans.quoted (hexDigit_quoted hhigh).1 (hexDigit_quoted hhigh).2).append
        (.quoted (hexDigit_quoted hlow).1 (hexDigit_quoted hlow).2)
    have hzeros : Scans depth true [48, 48] depth true :=
      (Scans.quoted (b := 48) (by decide) (by decide)).append (.quoted (by decide) (by decide))
    exact (Scans.escape 117).append (hzeros.append hdigits)
  · exact .quoted (fun h => hspecial (Or.inl h)) fun h => hspecial (Or.inr h)

theorem quote_scans (depth : Nat) (s : Str) : Scans depth false (quote s) depth false := by
  have hescape : Scans depth true (escape s) depth true := by
    induction s with
    | nil => exact .nil
    | cons b s ih =>
        rw [escape, List.flatMap_cons]
        exact (escapeByte_scans depth b).append ih
  exact (Scans.quote.append hescape).append .quote

theorem printInt_unquoted (i : Int) : ∀ b ∈ printInt i, Unquoted b := by
  have hdigits : ∀ n : Nat, ∀ b ∈ toDecimal n, Unquoted b := by
    intro n b hb
    obtain ⟨hlow, hhigh⟩ := toDecimal_range n b hb
    exact byte_below (motive := fun b => 48 ≤ b.toNat → Unquoted b) (n := 58) (by decide)
      (by omega) hlow
  unfold printInt
  split
  · exact List.forall_mem_cons.mpr ⟨by decide, hdigits _⟩
  · exact hdigits _

/-- The text between the braces of an object. -/
def printBody (floatText : UInt64 → Str) : List (Str × Json) → Str
  | [] => []
  | (key, item) :: rest =>
      quote key ++ [58] ++ item.print floatText ++ printMembers floatText rest

theorem print_obj (floatText : UInt64 → Str) (members : List (Str × Json)) :
    (obj members).print floatText = [123] ++ (printBody floatText members ++ [125]) := by
  cases members with
  | nil => rfl
  | cons entry rest => simp [print, printBody]

mutual

theorem print_scans {floatText : UInt64 → Str}
    (hfloat : ∀ bits, ∀ b ∈ floatText bits, Unquoted b) (j : Json) (depth : Nat) :
    Scans (depth + 1) false (j.print floatText) (depth + 1) false := by
  match j with
  | .null => exact .unquoted (show ∀ b ∈ lit "null", Unquoted b by decide)
  | .bool true => exact .unquoted (show ∀ b ∈ lit "true", Unquoted b by decide)
  | .bool false => exact .unquoted (show ∀ b ∈ lit "false", Unquoted b by decide)
  | .int i => exact .unquoted (printInt_unquoted i)
  | .float bits => exact .unquoted (hfloat bits)
  | .str s => exact quote_scans (depth + 1) s
  | .arr [] => exact .unquoted (show ∀ b ∈ ([91, 93] : Str), Unquoted b by decide)
  | .arr (item :: rest) =>
      have hopen : Scans (depth + 1) false [91] (depth + 1) false := .unquoted (by decide)
      have hclose : Scans (depth + 1) false [93] (depth + 1) false := .unquoted (by decide)
      exact ((hopen.append (print_scans hfloat item depth)).append
        (printItems_scans hfloat rest depth)).append hclose
  | .obj [] => exact Scans.opening.append .closing
  | .obj ((key, item) :: rest) =>
      have hcolon : Scans (depth + 2) false [58] (depth + 2) false := .unquoted (by decide)
      exact ((((Scans.opening.append (quote_scans _ key)).append hcolon).append
        (print_scans hfloat item (depth + 1))).append
        (printMembers_scans hfloat rest (depth + 1))).append .closing

theorem printItems_scans {floatText : UInt64 → Str}
    (hfloat : ∀ bits, ∀ b ∈ floatText bits, Unquoted b) (items : List Json) (depth : Nat) :
    Scans (depth + 1) false (printItems floatText items) (depth + 1) false := by
  match items with
  | [] => exact .nil
  | item :: rest =>
      have hcomma : Scans (depth + 1) false [44] (depth + 1) false := .unquoted (by decide)
      exact (hcomma.append (print_scans hfloat item depth)).append (printItems_scans hfloat rest depth)

theorem printMembers_scans {floatText : UInt64 → Str}
    (hfloat : ∀ bits, ∀ b ∈ floatText bits, Unquoted b) (members : List (Str × Json))
    (depth : Nat) :
    Scans (depth + 1) false (printMembers floatText members) (depth + 1) false := by
  match members with
  | [] => exact .nil
  | (key, item) :: rest =>
      have hcomma : Scans (depth + 1) false [44] (depth + 1) false := .unquoted (by decide)
      have hcolon : Scans (depth + 1) false [58] (depth + 1) false := .unquoted (by decide)
      exact (((hcomma.append (quote_scans _ key)).append hcolon).append
        (print_scans hfloat item depth)).append (printMembers_scans hfloat rest depth)

end

/-- The scanner finds a printed object whole. -/
theorem extractJson_print {floatText : UInt64 → Str}
    (hfloat : ∀ bits, ∀ b ∈ floatText bits, Unquoted b) (members : List (Str × Json)) (rest : Str) :
    extractJson ((obj members).print floatText ++ rest) = (obj members).print floatText := by
  have hbody : Scans 1 false (printBody floatText members) 1 false := by
    cases members with
    | nil => exact .nil
    | cons entry members =>
        have hcolon : Scans 1 false [58] 1 false := .unquoted (by decide)
        exact (((quote_scans _ entry.1).append hcolon).append
          (print_scans hfloat entry.2 0)).append (printMembers_scans hfloat members 0)
  have hfound : closingBrace 0 false ((obj members).print floatText ++ rest) =
      some ((obj members).print floatText).length := by
    have hstop : closingBrace 1 false (125 :: rest) = some 1 := by simp [closingBrace_cons]
    rw [print_obj, List.append_assoc, List.append_assoc, Scans.opening, hbody]
    simp only [Nat.zero_add, List.singleton_append, hstop, Option.map_some, List.length_cons,
      List.length_append, List.length_nil]
    congr 1
    omega
  rw [extractJson, hfound, if_pos]
  · exact List.take_left' rfl
  · rw [print_obj]
    rfl

end Json

/-! ## The loop of the parser -/

theorem extractFrom_drop (passing : Nat) (s : Str) :
    extractFrom passing s = extractFrom 0 (s.drop passing) := by
  induction passing generalizing s with
  | zero => rfl
  | succ passing ih =>
      cases s with
      | nil => simp [extractFrom]
      | cons c s => rw [extractFrom, ih, List.drop_succ_cons]

theorem extractFrom_open {c : UInt8} {rest : Str} (h : extractJson (c :: rest) = []) :
    extractFrom 0 (c :: rest) = extractFrom 0 rest := by
  rw [extractFrom, h]

theorem extractFrom_closed {c : UInt8} {rest : Str} (h : extractJson (c :: rest) ≠ []) :
    extractFrom 0 (c :: rest) = (parseToolCall (extractJson (c :: rest))).toList ++
      extractFrom ((extractJson (c :: rest)).length - 1) rest := by
  rw [extractFrom]
  split
  · contradiction
  · rfl

/-- An object at the front, and what stands behind it. -/
theorem extractFrom_front {s : Str} (h : extractJson s ≠ []) :
    extractFrom 0 s =
      (parseToolCall (extractJson s)).toList ++ extractFrom 0 (s.drop (extractJson s).length) := by
  cases s with
  | nil => exact absurd rfl h
  | cons c rest =>
      obtain ⟨n, hn⟩ := Nat.exists_eq_succ_of_ne_zero (List.length_pos_iff.mpr h).ne'
      rw [extractFrom_closed h, extractFrom_drop, hn, List.drop_succ_cons, Nat.succ_sub_one]

theorem extractFrom_object {object rest : Str} (h : extractJson (object ++ rest) = object)
    (hne : object ≠ []) :
    extractFrom 0 (object ++ rest) = (parseToolCall object).toList ++ extractFrom 0 rest := by
  rw [extractFrom_front (by rwa [h]), h, List.drop_left]

theorem extractFrom_newline (rest : Str) :
    extractFrom 0 (lit "\n" ++ rest) = extractFrom 0 rest := by
  have hopen : extractJson (10 :: rest) = [] := by simp [extractJson]
  exact extractFrom_open hopen

end JiuwenCore
