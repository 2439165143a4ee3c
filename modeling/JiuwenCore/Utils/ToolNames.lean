import JiuwenCore.Utils.ToolScan
import Mathlib.Data.List.TakeWhile

/-!
# Names in printed calls

The parser looks for the first `"name"` of an object, wherever it stands, takes the
first colon behind it and reads up to the next quote. A call is printed with its
arguments in front of its name, so the arguments decide which name is read.
-/

namespace JiuwenCore

/-! ## Searching -/

/-- What was looked for stands where it is found. -/
theorem indexOf_split {needle s : Str} {k : Nat} (h : indexOf needle s = some k) :
    ∃ before after, s = before ++ (needle ++ after) ∧ before.length = k := by
  induction s generalizing k with
  | nil =>
      rw [indexOf] at h
      split at h
      · rename_i hnil
        cases h
        exact ⟨[], [], by simp [hnil], rfl⟩
      · cases h
  | cons c s ih =>
      rw [indexOf] at h
      split at h
      · rename_i hfront
        cases h
        obtain ⟨after, hafter⟩ := List.isPrefixOf_iff_prefix.mp hfront
        exact ⟨[], after, hafter.symm, rfl⟩
      · obtain ⟨j, hj, rfl⟩ := Option.map_eq_some_iff.mp h
        obtain ⟨before, after, hs, hlength⟩ := ih hj
        exact ⟨c :: before, after, by rw [hs, List.cons_append], by rw [List.length_cons, hlength]⟩

theorem indexOf_front (needle after : Str) : indexOf needle (needle ++ after) = some 0 := by
  cases needle with
  | nil => cases after <;> simp [indexOf]
  | cons b needle =>
      have hfront : (b :: needle).isPrefixOf (b :: (needle ++ after)) :=
        List.isPrefixOf_iff_prefix.mpr (List.prefix_append (b :: needle) after)
      rw [List.cons_append, indexOf, if_pos hfront]

/-- What is found is the first occurrence. -/
theorem indexOf_le {needle before after s : Str} {k : Nat} (h : indexOf needle s = some k)
    (hs : s = before ++ (needle ++ after)) : k ≤ before.length := by
  induction before generalizing k s with
  | nil =>
      rw [hs, List.nil_append, indexOf_front] at h
      exact Nat.le_of_eq (Option.some.inj h).symm
  | cons b before ih =>
      rw [hs, List.cons_append, indexOf] at h
      split at h
      · cases h
        exact Nat.zero_le _
      · obtain ⟨j, hj, rfl⟩ := Option.map_eq_some_iff.mp h
        exact Nat.succ_le_succ (ih hj rfl)

theorem indexOf_ne_none (before needle after : Str) :
    indexOf needle (before ++ (needle ++ after)) ≠ none := by
  induction before with
  | nil => simp [indexOf_front]
  | cons b before ih =>
      rw [List.cons_append, indexOf]
      split
      · simp
      · simpa using ih

theorem indexOf_eq_some {needle s : Str} {k : Nat} (h : indexOf needle s = some k) :
    k + needle.length ≤ s.length := by
  obtain ⟨before, after, hs, hlength⟩ := indexOf_split h
  rw [hs]
  simp only [List.length_append]
  omega

theorem findFrom_eq {needle : Str} (h : needle ≠ []) (str : Str) (pos : Nat) :
    findFrom needle str pos = (indexOf needle (str.drop pos)).map (· + pos) := by
  rw [findFrom]
  split
  · rfl
  · rename_i hlong
    have hnil : str.drop pos = [] := List.drop_eq_nil_of_le (by omega)
    rw [hnil, indexOf, if_neg h]
    rfl

/-- From its occurrence on, a text starts with what was looked for. -/
theorem indexOf_drop {needle s : Str} {k : Nat} (h : indexOf needle s = some k) :
    indexOf needle (s.drop k) = some 0 := by
  obtain ⟨before, after, hs, rfl⟩ := indexOf_split h
  rw [hs, List.drop_left, indexOf_front]

/-- An occurrence is found where it was, whatever is appended. -/
theorem indexOf_append {needle s : Str} {k : Nat} (h : indexOf needle s = some k) (t : Str) :
    indexOf needle (s ++ t) = some k := by
  induction s generalizing k with
  | nil =>
      rw [indexOf] at h
      split at h
      · rename_i hnil
        cases h
        cases t <;> simp [indexOf, hnil]
      · cases h
  | cons c s ih =>
      rw [indexOf] at h
      rw [List.cons_append, indexOf]
      split at h
      · rename_i hfront
        cases h
        have hprefix := (List.isPrefixOf_iff_prefix.mp hfront).trans (List.prefix_append _ t)
        exact if_pos (List.isPrefixOf_iff_prefix.mpr hprefix)
      · rename_i hfront
        obtain ⟨j, hj, rfl⟩ := Option.map_eq_some_iff.mp h
        have hle := indexOf_eq_some hj
        have hnot : ¬ needle.isPrefixOf (c :: (s ++ t)) := by
          intro hprefix
          have hlong : needle <+: (c :: s) := by
            refine List.prefix_of_prefix_length_le (List.isPrefixOf_iff_prefix.mp hprefix)
              (List.prefix_append (c :: s) t) ?_
            rw [List.length_cons]
            omega
          exact hfront (List.isPrefixOf_iff_prefix.mpr hlong)
        rw [if_neg hnot, ih hj]
        rfl

/-- A byte that the text looked for does not have keeps its occurrences apart. -/
theorem indexOf_behind {needle : Str} {b : UInt8} (hb : b ∉ needle) {s : Str}
    (hlast : s.getLast? = some b) (hnone : indexOf needle s = none) (t : Str) :
    indexOf needle (s ++ t) = (indexOf needle t).map (· + s.length) := by
  induction s with
  | nil => cases hlast
  | cons c s ih =>
      rw [indexOf] at hnone
      split at hnone
      · cases hnone
      rename_i hfront
      have hnot : ¬ needle.isPrefixOf (c :: (s ++ t)) := by
        intro hprefix
        have happend : needle <+: (c :: s) ++ t := List.isPrefixOf_iff_prefix.mp hprefix
        rcases List.prefix_or_prefix_of_prefix happend (List.prefix_append (c :: s) t) with h | h
        · exact hfront (List.isPrefixOf_iff_prefix.mpr h)
        · exact hb (h.subset (List.mem_of_getLast? hlast))
      rw [List.cons_append, indexOf, if_neg hnot]
      cases s with
      | nil =>
          rw [List.nil_append]
          rfl
      | cons c' s =>
          rw [ih (by simpa using hlast) (Option.map_eq_none_iff.mp hnone), Option.map_map]
          rfl

theorem indexOf_byte {b : UInt8} {s : Str} {k : Nat} (h : indexOf [b] s = some k) :
    s = s.take k ++ b :: s.drop (k + 1) ∧ b ∉ s.take k := by
  induction s generalizing k with
  | nil => cases h
  | cons c s ih =>
      rw [indexOf] at h
      split at h
      · rename_i hfront
        cases h
        have hc : b = c := by simpa using hfront
        simp [hc]
      · rename_i hfront
        obtain ⟨j, hj, rfl⟩ := Option.map_eq_some_iff.mp h
        obtain ⟨hcut, hmem⟩ := ih hj
        have hc : b ≠ c := by simpa using hfront
        refine ⟨?_, ?_⟩
        · rw [List.take_succ_cons, List.drop_succ_cons, List.cons_append, ← hcut]
        · rw [List.take_succ_cons, List.mem_cons, not_or]
          exact ⟨hc, hmem⟩

theorem indexOf_byte_none {b : UInt8} {s : Str} (h : indexOf [b] s = none) : b ∉ s := by
  induction s with
  | nil => exact List.not_mem_nil
  | cons c s ih =>
      rw [indexOf] at h
      split at h
      · cases h
      · rename_i hfront
        have hc : b ≠ c := by simpa using hfront
        rw [List.mem_cons, not_or]
        exact ⟨hc, ih (Option.map_eq_none_iff.mp h)⟩

theorem indexOf_byte_of {b : UInt8} {u : Str} (h : b ∉ u) (after : Str) :
    indexOf [b] (u ++ b :: after) = some u.length := by
  induction u with
  | nil => simp [indexOf]
  | cons c u ih =>
      rw [List.mem_cons, not_or] at h
      have hfront : ¬ [b].isPrefixOf (c :: (u ++ b :: after)) := by simpa using h.1
      rw [List.cons_append, indexOf, if_neg hfront, ih h.2]
      rfl

/-! ## The value behind a key -/

/-- The bytes `find_first_not_of(" \t")` passes. -/
def blank (c : UInt8) : Bool := c = 32 ∨ c = 9

/-- The text of the string literal that stands at the front. -/
def quotedFront : Str → Option Str
  | 34 :: rest => if 34 ∈ rest then some (rest.takeWhile (· ≠ 34)) else none
  | _ => none

theorem findIdx_blank (s : Str) :
    match s.findIdx? fun c => c ≠ 32 ∧ c ≠ 9 with
    | some k => s.drop k = s.dropWhile blank
    | none => s.dropWhile blank = [] := by
  induction s with
  | nil => rfl
  | cons c s ih =>
      rw [List.findIdx?_cons]
      by_cases hc : c ≠ 32 ∧ c ≠ 9
      · have hblank : ¬ blank c := by simpa [blank] using hc
        simp [hc, hblank]
      · have hblank : blank c := by
          rw [not_and_or, not_not, not_not] at hc
          simpa [blank] using hc
        rw [if_neg (by simpa using hc), List.dropWhile_cons_of_pos hblank]
        cases hfound : s.findIdx? fun c => c ≠ 32 ∧ c ≠ 9 with
        | none =>
            rw [hfound] at ih
            exact ih
        | some k =>
            rw [hfound] at ih
            exact ih

/-- Where the value behind the first colon starts. -/
theorem valueStart_drop {s : Str} {keyEnd : Nat} {u after : Str} (hlen : keyEnd ≤ s.length)
    (hdrop : s.drop keyEnd = u ++ 58 :: after) (hu : 58 ∉ u) :
    match valueStart s keyEnd with
    | some pos => s.drop pos = after.dropWhile blank
    | none => after.dropWhile blank = [] := by
  have hcolon : findFrom [58] s keyEnd = some (u.length + keyEnd) := by
    rw [findFrom, if_pos hlen, hdrop, indexOf_byte_of hu]
    rfl
  have hafter : s.drop (u.length + keyEnd + 1) = after := by
    rw [show u.length + keyEnd + 1 = keyEnd + (u.length + 1) by omega, ← List.drop_drop, hdrop,
      ← List.drop_drop, List.drop_left, List.drop_one, List.tail_cons]
  have hfound := findIdx_blank after
  simp only [valueStart, hcolon, findNonBlank, hafter]
  cases hk : after.findIdx? fun c => c ≠ 32 ∧ c ≠ 9 with
  | none =>
      rw [hk] at hfound
      exact hfound
  | some k =>
      rw [hk] at hfound
      simp only [Option.map_some]
      rw [Nat.add_comm k, ← List.drop_drop, hafter]
      exact hfound

theorem takeWhile_quote (u w : Str) :
    (u ++ 34 :: w).takeWhile (· ≠ 34) = u.takeWhile (· ≠ 34) := by
  induction u with
  | nil => simp
  | cons c u ih =>
      rw [List.cons_append, List.takeWhile_cons, List.takeWhile_cons, ih]

theorem takeWhile_of_no_quote {u : Str} (h : 34 ∉ u) : u.takeWhile (· ≠ 34) = u := by
  rw [List.takeWhile_eq_self_iff]
  exact fun b hb => decide_eq_true fun he => h (he ▸ hb)

theorem quotedFront_eq_some {s v : Str} :
    quotedFront s = some v ↔ 34 ∉ v ∧ (34 :: (v ++ [34])) <+: s := by
  constructor
  · intro h
    unfold quotedFront at h
    split at h
    · rename_i rest
      split at h
      · rename_i hmem
        cases h
        obtain ⟨k, hk⟩ : ∃ k, indexOf [34] rest = some k := by
          cases hend : indexOf [34] rest with
          | none => exact absurd hmem (indexOf_byte_none hend)
          | some k => exact ⟨k, rfl⟩
        obtain ⟨hcut, hbefore⟩ := indexOf_byte hk
        have hvalue : rest.takeWhile (· ≠ 34) = rest.take k := by
          conv_lhs => rw [hcut]
          exact (takeWhile_quote _ _).trans (takeWhile_of_no_quote hbefore)
        rw [hvalue]
        refine ⟨hbefore, rest.drop (k + 1), ?_⟩
        conv_rhs => rw [hcut]
        simp
      · cases h
    · cases h
  · intro h
    obtain ⟨hv, rest, rfl⟩ := h
    have hvalue := (takeWhile_quote v rest).trans (takeWhile_of_no_quote hv)
    have hmem : 34 ∈ v ++ 34 :: rest := by simp
    rw [List.cons_append, List.append_assoc, List.singleton_append, quotedFront, if_pos hmem,
      hvalue]

theorem quotedText_eq (s : Str) (pos : Nat) : quotedText s pos = quotedFront (s.drop pos) := by
  unfold quotedText
  cases hdrop : s.drop pos with
  | nil =>
      have hnone : s[pos]? = none := by
        rw [← List.head?_drop, hdrop]
        rfl
      simp [hnone, quotedFront]
  | cons c rest =>
      have hc : s[pos]? = some c := by
        rw [← List.head?_drop, hdrop]
        rfl
      have hrest : s.drop (pos + 1) = rest := by
        rw [← List.drop_drop, hdrop]
        rfl
      have hlen : pos + 1 ≤ s.length := (List.getElem?_eq_some_iff.mp hc).1
      by_cases hquote : c = 34
      · subst hquote
        rw [if_pos hc, findFrom, if_pos hlen, hrest]
        cases hend : indexOf [34] rest with
        | none =>
            have hmem := indexOf_byte_none hend
            simp [quotedFront, hmem]
        | some k =>
            obtain ⟨hcut, hbefore⟩ := indexOf_byte hend
            have hmem : 34 ∈ rest := by
              rw [hcut]
              simp
            have hvalue : rest.takeWhile (· ≠ 34) = rest.take k := by
              conv_lhs => rw [hcut]
              exact (takeWhile_quote _ _).trans (takeWhile_of_no_quote hbefore)
            have hcount : k + (pos + 1) - pos - 1 = k := by omega
            simp only [Option.map_some, substr, hrest, hcount, quotedFront, if_pos hmem, hvalue]
      · have hne : ¬ s[pos]? = some 34 := by
          rw [hc]
          simpa using hquote
        rw [if_neg hne, quotedFront]
        simpa using hquote

theorem nameValue_eq {s : Str} {nameKey : Nat} {u after : Str} (hlen : nameKey + 6 ≤ s.length)
    (hdrop : s.drop (nameKey + 6) = u ++ 58 :: after) (hu : 58 ∉ u) :
    nameValue s nameKey = (quotedFront (after.dropWhile blank)).getD [] := by
  have hstart := valueStart_drop hlen hdrop hu
  unfold nameValue
  cases hpos : valueStart s (nameKey + 6) with
  | none =>
      rw [hpos] at hstart
      simp only at hstart
      rw [hstart]
      rfl
  | some pos =>
      rw [hpos] at hstart
      simp only at hstart
      rw [Option.bind_some, quotedText_eq, hstart]

/-! ## A printed call -/

namespace Json

/-- A call as `Format` writes it, with the keys in their order. -/
def callObject (args : Json) (name : Str) : Json :=
  .obj [(lit "arguments", args), (lit "name", .str name)]

def callHead : Str := lit "\x7b\"arguments\":"

def callTail (name : Str) : Str := lit ",\"name\":\"" ++ escape name ++ lit "\"\x7d"

theorem print_callObject (floatText : UInt64 → Str) (args : Json) (name : Str) :
    (callObject args name).print floatText = callHead ++ (args.print floatText ++ callTail name) := by
  have hhead : [123] ++ quote (lit "arguments") ++ [58] = callHead := by decide
  have htail : [44] ++ quote (lit "name") ++ [58] ++ [34] = lit ",\"name\":\"" := by decide
  have hend : lit "\"\x7d" = ([34] ++ [125] : Str) := by decide
  simp only [callObject, print, printMembers, callTail, ← hhead, ← htail, hend, quote,
    List.append_assoc, List.append_nil]

/-- What stands behind the first colon after the first `"name"`. -/
def behindName (text : Str) : Option Str :=
  (indexOf (lit "\"name\"") text).bind fun k =>
    (indexOf [58] (text.drop (k + 6))).map fun colon => text.drop (k + 6 + (colon + 1))

/-- The name the parser reads from a printed call. -/
def readName (args name : Str) : Str :=
  match behindName args with
  | some after => (quotedFront ((after ++ callTail name).dropWhile blank)).getD []
  | none => (escape name).takeWhile (· ≠ 34)

theorem nameKey_eq {args : Str} (hlast : args.getLast? = some 125) (name : Str) :
    indexOf (lit "\"name\"") (callHead ++ (args ++ callTail name)) =
      some (match indexOf (lit "\"name\"") args with
        | some k => k + 13
        | none => args.length + 14) := by
  rw [indexOf_behind (b := 58) (by decide) (by decide) (by decide)]
  have hlength : callHead.length = 13 := by decide
  cases hargs : indexOf (lit "\"name\"") args with
  | some k =>
      rw [indexOf_append hargs, hlength]
      rfl
  | none =>
      have htail : indexOf (lit "\"name\"") (callTail name) = some 1 := by
        have hfront : indexOf (lit "\"name\"") (lit ",\"name\":\"") = some 1 := by decide
        rw [callTail, List.append_assoc, indexOf_append hfront]
      rw [indexOf_behind (b := 125) (by decide) hlast hargs, htail, hlength]
      simp only [Option.map_some]
      congr 1
      omega

theorem callTail_eq (name : Str) :
    callTail name = lit ",\"name\"" ++ 58 :: 34 :: (escape name ++ [34, 125]) := by
  have hfront : lit ",\"name\":\"" = lit ",\"name\"" ++ [58, 34] := by decide
  have hend : lit "\"\x7d" = ([34, 125] : Str) := by decide
  rw [callTail, hfront, hend]
  simp

/-- The value behind the key that `Format` writes is read up to the first quote. -/
theorem quotedFront_tail (name : Str) :
    (quotedFront ((34 :: (escape name ++ [34, 125])).dropWhile blank)).getD [] =
      (escape name).takeWhile (· ≠ 34) := by
  have hquote : ¬ blank 34 := by decide
  rw [List.dropWhile_cons_of_neg hquote, quotedFront, if_pos (by simp), takeWhile_quote]
  rfl

theorem nameValue_print {args : Str} (hlast : args.getLast? = some 125) (name : Str)
    {nameKey : Nat}
    (hkey : indexOf (lit "\"name\"") (callHead ++ (args ++ callTail name)) = some nameKey) :
    nameValue (callHead ++ (args ++ callTail name)) nameKey = readName args name := by
  have hlen := indexOf_eq_some hkey
  have hneedle : (lit "\"name\"").length = 6 := by decide
  have hhead : callHead.length = 13 := by decide
  have htail : 58 ∉ lit ",\"name\"" := by decide
  rw [hneedle] at hlen
  rw [nameKey_eq hlast, Option.some.injEq] at hkey
  cases hargs : indexOf (lit "\"name\"") args with
  | none =>
      simp only [hargs] at hkey
      have hdrop : (callHead ++ (args ++ callTail name)).drop (nameKey + 6) =
          [] ++ 58 :: 34 :: (escape name ++ [34, 125]) := by
        rw [← hkey, show args.length + 14 + 6 = callHead.length + (args.length + 7) by omega,
          List.drop_length_add_append, List.drop_length_add_append, callTail_eq]
        rfl
      rw [nameValue_eq hlen hdrop List.not_mem_nil, quotedFront_tail, readName, behindName, hargs]
      rfl
  | some k =>
      simp only [hargs] at hkey
      have hk := indexOf_eq_some hargs
      rw [hneedle] at hk
      have hdrop : (callHead ++ (args ++ callTail name)).drop (nameKey + 6) =
          args.drop (k + 6) ++ callTail name := by
        rw [← hkey, show k + 13 + 6 = callHead.length + (k + 6) by omega,
          List.drop_length_add_append, List.drop_append_of_le_length hk]
      cases hcolon : indexOf [58] (args.drop (k + 6)) with
      | none =>
          have hnone := indexOf_byte_none hcolon
          have hline : args.drop (k + 6) ++ callTail name =
              (args.drop (k + 6) ++ lit ",\"name\"") ++ 58 :: 34 :: (escape name ++ [34, 125]) := by
            rw [callTail_eq, List.append_assoc]
          rw [hline] at hdrop
          have hbefore : 58 ∉ args.drop (k + 6) ++ lit ",\"name\"" := by
            rw [List.mem_append, not_or]
            exact ⟨hnone, htail⟩
          rw [nameValue_eq hlen hdrop hbefore, quotedFront_tail, readName, behindName, hargs,
            Option.bind_some, hcolon]
          rfl
      | some colon =>
          obtain ⟨hcut, hbefore⟩ := indexOf_byte hcolon
          rw [hcut, List.append_assoc, List.cons_append, List.drop_drop] at hdrop
          rw [nameValue_eq hlen hdrop hbefore, readName, behindName, hargs, Option.bind_some,
            hcolon]
          rfl

theorem argumentsValue_print {floatText : UInt64 → Str}
    (hfloat : ∀ bits, ∀ b ∈ floatText bits, Unquoted b) (members : List (Str × Json)) (name : Str) :
    argumentsValue (callHead ++ ((obj members).print floatText ++ callTail name)) 1 =
      (obj members).print floatText := by
  set args := (obj members).print floatText with hargs
  have hfront : args ++ callTail name = 123 :: (printBody floatText members ++ [125] ++ callTail name) := by
    rw [hargs, print_obj]
    simp
  have hlen : 1 + 11 ≤ (callHead ++ (args ++ callTail name)).length := by
    have hhead : callHead.length = 13 := by decide
    rw [List.length_append]
    omega
  have hdrop : (callHead ++ (args ++ callTail name)).drop (1 + 11) =
      [] ++ 58 :: (args ++ callTail name) := rfl
  have hopen : ¬ blank 123 := by decide
  have hblank : (args ++ callTail name).dropWhile blank = args ++ callTail name := by
    rw [hfront, List.dropWhile_cons_of_neg hopen]
  have hstart := valueStart_drop hlen hdrop List.not_mem_nil
  unfold argumentsValue
  cases hpos : valueStart (callHead ++ (args ++ callTail name)) (1 + 11) with
  | none =>
      rw [hpos, hblank, hfront] at hstart
      cases hstart
  | some pos =>
      rw [hpos, hblank] at hstart
      simp only at hstart
      have hbrace : (callHead ++ (args ++ callTail name))[pos]? = some 123 := by
        rw [← List.head?_drop, hstart, hfront]
        rfl
      have hne : args ≠ [] := by
        rw [hargs, print_obj]
        simp
      simp only [hbrace, if_true, hstart]
      rw [hargs, extractJson_print hfloat, if_neg (hargs ▸ hne)]

/-! ## The name -/

/-- A byte that a string literal holds as it is. -/
def Literal (b : UInt8) : Prop := b ≠ 34 ∧ b ≠ 92 ∧ 0x1F < b

instance (b : UInt8) : Decidable (Literal b) := inferInstanceAs (Decidable (_ ∧ _))

theorem escapeByte_literal {b : UInt8} (h : Literal b) : escapeByte b = [b] := by
  obtain ⟨hquote, hescape, hcontrol⟩ := h
  have hne : ∀ k : UInt8, k ≤ 0x1F → b ≠ k := fun k hk he => UInt8.not_le.mpr hcontrol (he ▸ hk)
  rw [escapeByte, if_neg (not_or.mpr ⟨hquote, hescape⟩), if_neg (hne 8 (by decide)),
    if_neg (hne 9 (by decide)), if_neg (hne 10 (by decide)), if_neg (hne 12 (by decide)),
    if_neg (hne 13 (by decide)), if_neg (UInt8.not_le.mpr hcontrol)]

theorem escapeByte_head {b : UInt8} (h : ¬ Literal b) : ∃ rest, escapeByte b = 92 :: rest := by
  unfold escapeByte
  split
  · exact ⟨_, rfl⟩
  rename_i hspecial
  iterate 6
    split
    · exact ⟨_, rfl⟩
  rename_i hcontrol
  exact absurd ⟨fun he => hspecial (Or.inl he), fun he => hspecial (Or.inr he),
    UInt8.not_le.mp hcontrol⟩ h

theorem escape_cons (b : UInt8) (s : Str) : escape (b :: s) = escapeByte b ++ escape s :=
  List.flatMap_cons

/-- A backslash is doubled, so the text of the literal never catches up with the
string. -/
theorem backslashes_ne (v : Str) (k : Nat) :
    v ≠ List.replicate (k + 1) 92 ++ (escape v).takeWhile (· ≠ 34) := by
  induction v generalizing k with
  | nil => simp [List.replicate_succ]
  | cons b v ih =>
      intro h
      rw [List.replicate_succ, List.cons_append, List.cons.injEq] at h
      obtain ⟨rfl, hrest⟩ := h
      have hdouble : (escape (92 :: v)).takeWhile (· ≠ 34) =
          92 :: 92 :: (escape v).takeWhile (· ≠ 34) := by
        have hescape : escapeByte 92 = [92, 92] := by decide
        rw [escape_cons, hescape]
        simp
      have hcount : List.replicate k (92 : UInt8) ++ 92 :: 92 :: (escape v).takeWhile (· ≠ 34) =
          List.replicate (k + 1 + 1) 92 ++ (escape v).takeWhile (· ≠ 34) := by
        rw [List.replicate_succ', List.replicate_succ']
        simp
      rw [hdouble, hcount] at hrest
      exact ih (k + 1) hrest

theorem takeWhile_escape_iff (v : Str) :
    (escape v).takeWhile (· ≠ 34) = v ↔ ∀ b ∈ v, Literal b := by
  induction v with
  | nil => simp [escape]
  | cons b v ih =>
      rw [List.forall_mem_cons, ← ih, escape_cons]
      by_cases hb : Literal b
      · rw [escapeByte_literal hb, List.singleton_append,
          List.takeWhile_cons_of_pos (by simpa using hb.1), List.cons.injEq]
        exact ⟨fun h => ⟨hb, h.2⟩, fun h => ⟨rfl, h.2⟩⟩
      · refine iff_of_false ?_ fun h => hb h.1
        intro h
        by_cases hescape : b = 92
        · subst hescape
          have hdouble : escapeByte 92 = [92, 92] := by decide
          rw [hdouble] at h
          have hrest : v = 92 :: (escape v).takeWhile (· ≠ 34) := by simpa using h.symm
          exact backslashes_ne v 0 hrest
        · obtain ⟨rest, hhead⟩ := escapeByte_head hb
          rw [hhead, List.cons_append, List.takeWhile_cons_of_pos (by decide), List.cons.injEq] at h
          exact hescape h.1.symm

/-- The parser finds the name where it looks for it. -/
def NameAt (args name : Str) : Prop :=
  match behindName args with
  | some after => 34 ∉ name ∧ (34 :: (name ++ [34])) <+: after.dropWhile blank
  | none => ∀ b ∈ name, Literal b

theorem behindName_last {args after : Str} (hlast : args.getLast? = some 125)
    (h : behindName args = some after) : after.getLast? = some 125 := by
  obtain ⟨k, hk, hbehind⟩ := Option.bind_eq_some_iff.mp h
  obtain ⟨colon, hcolon, rfl⟩ := Option.map_eq_some_iff.mp hbehind
  have hcut := (indexOf_byte hcolon).1
  rw [List.drop_drop] at hcut
  have hargs : args = args.take (k + 6) ++ ((args.drop (k + 6)).take colon ++
      58 :: args.drop (k + 6 + (colon + 1))) := by
    rw [← hcut, List.take_append_drop]
  rw [hargs, List.getLast?_append, List.getLast?_append, List.getLast?_cons] at hlast
  cases hafter : (args.drop (k + 6 + (colon + 1))).getLast? with
  | none => simp [hafter] at hlast
  | some b =>
      simp [hafter] at hlast
      rw [hlast]

theorem readName_eq_iff {args name : Str} (hlast : args.getLast? = some 125) (hne : name ≠ [])
    (hbrace : 125 ∉ name) : readName args name = name ↔ NameAt args name := by
  unfold readName NameAt
  cases hbehind : behindName args with
  | none => exact takeWhile_escape_iff name
  | some after =>
      have hafter := behindName_last hlast hbehind
      have hmem : 125 ∈ after.dropWhile blank := by
        have hall := List.takeWhile_append_dropWhile (p := blank) (l := after)
        have hin : 125 ∈ after.takeWhile blank ++ after.dropWhile blank := by
          rw [hall]
          exact List.mem_of_getLast? hafter
        rcases List.mem_append.mp hin with h | h
        · exact absurd (List.mem_takeWhile_imp h) (by decide)
        · exact h
      have hdrop : (after ++ callTail name).dropWhile blank =
          after.dropWhile blank ++ callTail name := by
        rw [List.dropWhile_append, if_neg]
        simpa using List.ne_nil_of_mem hmem
      have hsome : (quotedFront ((after ++ callTail name).dropWhile blank)).getD [] = name ↔
          quotedFront ((after ++ callTail name).dropWhile blank) = some name := by
        cases quotedFront ((after ++ callTail name).dropWhile blank) with
        | none => simp [hne.symm]
        | some v => simp
      simp only [hsome]
      rw [quotedFront_eq_some, hdrop]
      refine and_congr_right fun _ => ⟨fun h => ?_, fun h => List.IsPrefix.trans h (List.prefix_append _ _)⟩
      rcases List.prefix_or_prefix_of_prefix h (List.prefix_append _ _) with h | h
      · exact h
      · -- the brace that ends the arguments would stand in the name
        have hname : (125 : UInt8) ∈ 34 :: (name ++ [34]) := h.subset hmem
        simp [hbrace] at hname

theorem print_obj_last (floatText : UInt64 → Str) (members : List (Str × Json)) :
    ((obj members).print floatText).getLast? = some 125 := by
  rw [print_obj, ← List.append_assoc, List.getLast?_concat]

theorem parseToolCall_print {floatText : UInt64 → Str}
    (hfloat : ∀ bits, ∀ b ∈ floatText bits, Unquoted b) (members : List (Str × Json)) (name : Str) :
    parseToolCall ((callObject (.obj members) name).print floatText) =
      let args := (obj members).print floatText
      let read := readName args name
      if read ≠ [] ∧ read.length < 50 ∧ 123 ∉ read ∧ 125 ∉ read then some ⟨read, args⟩ else none := by
  have hlast := print_obj_last floatText members
  have hargsKey : indexOf (lit "\"arguments\"") callHead = some 1 := by decide
  rw [print_callObject, parseToolCall, indexOf_append hargsKey]
  have hkey := nameKey_eq hlast name
  rw [hkey]
  simp only [nameValue_print hlast name hkey, argumentsValue_print hfloat]

end Json

end JiuwenCore
