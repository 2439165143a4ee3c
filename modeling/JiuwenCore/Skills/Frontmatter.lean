import JiuwenCore.Lib.LineFeed
import JiuwenCore.Skills.SkillEngine
import JiuwenCore.Utils.ToolNames

/-!
# The frontmatter by its lines

The block is what stands between a first line of three dashes and the next such line, a field is
a line of it that starts with its key. The engine agrees with that as long as what it finds in
the text stands at the start of a line.
-/

namespace JiuwenCore.SkillEngine

open LineFeed (cutLine lines remainder unlines unlines_lines lines_unlines_append)

/-! ## By lines -/

def dashes : Str := lit "---"

theorem fence_eq : fence = dashes ++ [10] := rfl

/-- The lines up to the next line of dashes, which may be the last one, and what follows it. -/
def closing (text : Str) : Option (List Str × Str) :=
  match (lines 10 text).dropWhile (· ≠ dashes) with
  | _ :: after =>
      some ((lines 10 text).takeWhile (· ≠ dashes), unlines 10 after ++ remainder 10 text)
  | [] => if remainder 10 text = dashes then some (lines 10 text, []) else none

/-- The lines of the block and the text behind it. -/
def frontmatterBlock (content : Str) : Option (List Str × Str) :=
  match cutLine 10 content with
  | some (first, rest) => if first = dashes then closing rest else none
  | none => none

/-- The value in what stands behind the colon: what is in its quotes, or what is left when the
whitespace around it is trimmed. A quote that is not closed holds nothing. -/
def lineValue (text : Str) : Str :=
  match text.dropWhile blank with
  | 34 :: quoted => if 34 ∈ quoted then quoted.takeWhile (· ≠ 34) else []
  | value => (value.reverse.dropWhile isTail).reverse

def blockField (content key : Str) : Str :=
  match frontmatterBlock content with
  | none => []
  | some (front, _) =>
      match front.find? (key ++ [58]).isPrefixOf with
      | none => []
      | some line => lineValue (line.drop (key.length + 1))

@[grind =] def blockBody (content : Str) : Str :=
  match frontmatterBlock content with
  | none => content
  | some (_, body) => body

/-! ## Where lines start -/

/-- A text that ends where a line may start. -/
def LineStart (before : Str) : Prop := ∃ front : List Str, (∀ line ∈ front, 10 ∉ line) ∧
  before = unlines 10 front

theorem lineStart_iff (before : Str) :
    LineStart before ↔ before = [] ∨ before.getLast? = some 10 := by
  constructor
  · rintro ⟨front, -, rfl⟩
    rcases List.eq_nil_or_concat front with rfl | ⟨more, line, rfl⟩
    · exact .inl rfl
    · right
      simp [unlines]
  · intro h
    refine ⟨lines 10 before, LineFeed.not_mem_of_mem_lines 10 before, ?_⟩
    have hrest : remainder 10 before = [] := by
      rcases h with rfl | hlast
      · rfl
      · obtain ⟨init, rfl⟩ := List.getLast?_eq_some_iff.mp hlast
        exact LineFeed.remainder_append_sep 10 init
    conv_lhs => rw [← unlines_lines 10 before, hrest, List.append_nil]

theorem closing_of_fence {front : List Str} (hlines : ∀ line ∈ front, 10 ∉ line)
    (hdashes : dashes ∉ front) (body : Str) :
    closing (unlines 10 front ++ (fence ++ body)) = some (front, body) := by
  have hdash : 10 ∉ dashes := by decide
  have htext : fence ++ body = dashes ++ 10 :: body := rfl
  have hall : lines 10 (unlines 10 front ++ (fence ++ body)) =
      front ++ dashes :: lines 10 body := by
    rw [lines_unlines_append 10 hlines, htext, LineFeed.lines_append_sep 10 hdash]
  have hother : ∀ line ∈ front, decide (line ≠ dashes) = true := by
    intro line hline
    exact decide_eq_true fun heq => hdashes (heq ▸ hline)
  have hrest : remainder 10 (unlines 10 front ++ (fence ++ body)) = remainder 10 body := by
    have hfront : unlines 10 front ++ (fence ++ body) = unlines 10 (front ++ [dashes]) ++ body := by
      simp [fence_eq, unlines]
    rw [hfront, LineFeed.remainder_append, LineFeed.remainder_unlines, List.nil_append]
  rw [closing, hall, hrest, List.dropWhile_append_of_pos hother,
    List.takeWhile_append_of_pos hother]
  simp [unlines_lines]

/-- The block ends at a fence that starts a line, or at dashes that end the text. -/
theorem closing_split {text : Str} {front : List Str} {body : Str}
    (h : closing text = some (front, body)) :
    (∃ before, LineStart before ∧ text = before ++ (fence ++ body)) ∨
      body = [] ∧ remainder 10 text = dashes ∧ ∃ before, text = before ++ dashes := by
  have hfree := LineFeed.not_mem_of_mem_lines 10 text
  have htext := unlines_lines 10 text
  have hsplit := List.takeWhile_append_dropWhile (p := (· ≠ dashes)) (l := lines 10 text)
  have hstart : LineStart (unlines 10 ((lines 10 text).takeWhile (· ≠ dashes))) :=
    ⟨_, fun l hl => hfree l ((List.takeWhile_sublist _).subset hl), rfl⟩
  unfold closing at h
  split at h
  · rename_i line after hdrop
    cases h
    have hline : line = dashes := by
      have hhead := List.head?_dropWhile_not (· ≠ dashes) (lines 10 text)
      rw [hdrop] at hhead
      simpa using hhead
    left
    refine ⟨_, hstart, ?_⟩
    conv_lhs => rw [← htext, ← hsplit, hdrop, hline]
    simp [fence_eq]
  · split at h
    · rename_i hlast
      cases h
      exact .inr ⟨rfl, hlast, _, by rw [← hlast, htext]⟩
    · cases h

theorem closing_none {text : Str} (h : closing text = none) : remainder 10 text ≠ dashes := by
  unfold closing at h
  split at h
  · cases h
  · split at h
    · cases h
    · assumption

theorem block_of_fence (rest : Str) : frontmatterBlock (fence ++ rest) = closing rest := rfl

/-- A block opens with a fence. -/
theorem fence_of_block {content : Str} {found : List Str × Str}
    (h : frontmatterBlock content = some found) :
    ∃ rest, content = fence ++ rest ∧ closing rest = some found := by
  unfold frontmatterBlock at h
  split at h
  · rename_i first rest hcut
    obtain ⟨hfirst, hclosing⟩ := Option.ite_none_right_eq_some.mp h
    refine ⟨rest, ?_, hclosing⟩
    rw [(LineFeed.cutLine_some 10 hcut).1, hfirst, fence_eq, List.append_assoc]
    rfl
  · cases h

/-! ## The range of the engine -/

theorem fence_ne_nil : fence ≠ [] := by decide

theorem range_of_fence (rest : Str) :
    frontmatterRange (fence ++ rest) = (indexOf fence rest).map fun k => (4, k + 4) := by
  have hdrop : (fence ++ rest).drop (0 + 4) = rest := rfl
  rw [frontmatterRange, findFrom_eq fence_ne_nil, List.drop_zero, indexOf_front, Option.map_some]
  dsimp only
  rw [findFrom_eq fence_ne_nil, hdrop]
  cases indexOf fence rest <;> rfl

/-- A range that starts at the fourth byte has its first fence in front. -/
theorem fence_of_range {content : Str} {frontEnd : Nat}
    (h : frontmatterRange content = some (4, frontEnd)) : ∃ rest, content = fence ++ rest := by
  unfold frontmatterRange at h
  split at h
  · cases h
  · rename_i frontStart hfirst
    split at h
    · cases h
    · simp only [Option.some.injEq, Prod.mk.injEq] at h
      rw [findFrom_eq fence_ne_nil, List.drop_zero] at hfirst
      obtain ⟨k, hk, hstart⟩ := Option.map_eq_some_iff.mp hfirst
      obtain ⟨before, rest, hcontent, hlength⟩ := indexOf_split hk
      have hnil : before = [] := List.length_eq_zero_iff.mp (by omega)
      exact ⟨rest, by rw [hcontent, hnil, List.nil_append]⟩

/-- The first fence is in front and the second one starts a line; without two of them, the text
does not end in dashes that close a block. -/
@[grind =] def BodyFits (content : Str) : Prop :=
  match frontmatterRange content with
  | some (frontStart, frontEnd) =>
      frontStart = 4 ∧ (content.take frontEnd).getLast? = some 10
  | none => ¬ (fence <+: content ∧ remainder 10 content = dashes)

theorem bodyOf_fence (rest : Str) : bodyOf (fence ++ rest) =
    match indexOf fence rest with
    | none => fence ++ rest
    | some k => rest.drop (k + 4) := by
  rw [bodyOf, range_of_fence]
  cases indexOf fence rest <;> rfl

theorem take_fence (before after : Str) :
    ((fence ++ (before ++ after)).take (before.length + 4)).getLast? = some 10 ↔
      LineStart before := by
  have htake : (fence ++ (before ++ after)).take (before.length + 4) = fence ++ before := by
    rw [← List.append_assoc]
    refine List.take_left' ?_
    have hlength : fence.length = 4 := rfl
    rw [List.length_append]
    omega
  rw [htake, lineStart_iff]
  cases before with
  | nil => simp [fence_eq]
  | cons b before => simp

/-- No line of dashes stands in front of the first fence. -/
theorem dashes_not_mem {front : List Str} {after : Str}
    (h : indexOf fence (unlines 10 front ++ (fence ++ after)) = some (unlines 10 front).length) :
    dashes ∉ front := by
  intro hmem
  obtain ⟨a, b, rfl⟩ := List.append_of_mem hmem
  have hearlier : unlines 10 (a ++ dashes :: b) ++ (fence ++ after) =
      unlines 10 a ++ (fence ++ (unlines 10 b ++ (fence ++ after))) := by simp [fence_eq]
  have hle := indexOf_le h hearlier
  simp only [LineFeed.unlines_append, LineFeed.unlines_cons, List.length_append,
    List.length_cons] at hle
  omega

theorem remainder_fence (rest : Str) : remainder 10 (fence ++ rest) = remainder 10 rest := by
  rw [LineFeed.remainder_append, fence_eq, LineFeed.remainder_append_sep, List.nil_append]

/-- With a second fence in the text, the block ends there exactly when it starts a line. -/
theorem bodyOf_eq_of_fence {rest : Str} {k : Nat} (h : indexOf fence rest = some k) :
    bodyOf (fence ++ rest) = blockBody (fence ++ rest) ↔ BodyFits (fence ++ rest) := by
  obtain ⟨before, after, rfl, rfl⟩ := indexOf_split h
  have hdrop : (before ++ (fence ++ after)).drop (before.length + 4) = after := by
    rw [← List.append_assoc]
    exact List.drop_left' (by simp [fence, lit])
  rw [bodyOf_fence, h, blockBody, block_of_fence, BodyFits, range_of_fence, h]
  dsimp only [Option.map_some]
  rw [hdrop, take_fence]
  simp only [true_and]
  constructor
  · intro hbody
    cases hclosing : closing (before ++ (fence ++ after)) with
    | none =>
        rw [hclosing] at hbody
        have hlength := congrArg List.length hbody
        have hfence : fence.length = 4 := rfl
        simp only [List.length_append] at hlength
        omega
    | some found =>
        obtain ⟨front, body⟩ := found
        rw [hclosing] at hbody
        obtain rfl : after = body := hbody
        rcases closing_split hclosing with ⟨before', hstart, htext⟩ | ⟨hnil, -, before', htext⟩
        · have hsame := List.append_cancel_right htext
          rwa [hsame]
        · have hlast := congrArg List.getLast? htext
          rw [hnil] at hlast
          simp [fence, dashes, lit] at hlast
  · rintro ⟨front, hlines, rfl⟩
    rw [closing_of_fence hlines (dashes_not_mem h)]

theorem bodyOf_eq_of_no_fence {rest : Str} (h : indexOf fence rest = none) :
    bodyOf (fence ++ rest) = blockBody (fence ++ rest) ↔ BodyFits (fence ++ rest) := by
  rw [bodyOf_fence, h, blockBody, block_of_fence, BodyFits, range_of_fence, h]
  dsimp only [Option.map_none]
  rw [remainder_fence]
  simp only [List.prefix_append, true_and]
  cases hclosing : closing rest with
  | none => exact iff_of_true rfl (closing_none hclosing)
  | some found =>
      obtain ⟨front, body⟩ := found
      rcases closing_split hclosing with ⟨before, -, rfl⟩ | ⟨rfl, hlast, -⟩
      · exact absurd h (indexOf_ne_none before fence body)
      · exact iff_of_false (by simp [fence, lit]) fun hnot => hnot hlast

/-- The body is what stands behind the block exactly when the fences fit. -/
theorem bodyOf_eq_iff (content : Str) : bodyOf content = blockBody content ↔ BodyFits content := by
  by_cases hfence : ∃ rest, content = fence ++ rest
  · obtain ⟨rest, rfl⟩ := hfence
    cases h : indexOf fence rest with
    | none => exact bodyOf_eq_of_no_fence h
    | some k => exact bodyOf_eq_of_fence h
  · have hblock : frontmatterBlock content = none := by
      cases hfound : frontmatterBlock content with
      | none => rfl
      | some found =>
          obtain ⟨rest, hcontent, -⟩ := fence_of_block hfound
          exact absurd ⟨rest, hcontent⟩ hfence
    rw [bodyOf, blockBody, hblock, BodyFits]
    cases hrange : frontmatterRange content with
    | none => exact iff_of_true rfl fun h => hfence (h.1.imp fun _ => Eq.symm)
    | some range =>
        obtain ⟨frontStart, frontEnd⟩ := range
        refine iff_of_false ?_ ?_
        · intro hbody
          have hlength := congrArg List.length hbody
          have hne : content ≠ [] := by
            rintro rfl
            cases hrange
          have hpos := List.length_pos_iff.mpr hne
          simp only [List.length_drop] at hlength
          omega
        · rintro ⟨rfl, -⟩
          exact hfence (fence_of_range hrange)

/-! ## Fields -/

/-- What the engine takes from a text that starts with a value. -/
def textValue (text : Str) : Str :=
  if text.head? = some 34 then
    match indexOf [34] text.tail with
    | none => []
    | some valEnd => text.tail.take valEnd
  else
    match indexOf [10] text with
    | none => text
    | some valEnd => trimTail (text.take valEnd)

theorem valueAt_eq (frontmatter : Str) (valStart : Nat) :
    valueAt frontmatter valStart = textValue (frontmatter.drop valStart) := by
  have hbyte : ∀ b : UInt8, ([b] : Str) ≠ [] := fun b => List.cons_ne_nil b []
  unfold valueAt textValue substr
  rw [← List.head?_drop, findFrom_eq (hbyte 34), findFrom_eq (hbyte 10), List.tail_drop]
  congr 1
  · cases indexOf [34] (frontmatter.drop (valStart + 1)) with
    | none => rfl
    | some valEnd =>
        have hcount : valEnd + (valStart + 1) - valStart - 1 = valEnd := by omega
        simp only [Option.map_some, hcount]
  · cases indexOf [10] (frontmatter.drop valStart) with
    | none => rfl
    | some valEnd => simp only [Option.map_some, Nat.add_sub_cancel]

/-- The first byte that is no blank. -/
theorem findNonBlank_eq {text : Str} {pos : Nat} (h : (text.drop pos).dropWhile blank ≠ []) :
    ∃ valStart, findNonBlank text pos = some valStart ∧
      text.drop valStart = (text.drop pos).dropWhile blank := by
  have hpred : (fun c : UInt8 => decide (c ≠ 32 ∧ c ≠ 9)) = fun c => !blank c := by
    funext c
    simp [blank]
  obtain ⟨c, hc, hblank⟩ : ∃ c ∈ text.drop pos, (!blank c) = true := by
    by_contra hall
    refine h (List.dropWhile_eq_nil_iff.mpr fun c hc => ?_)
    by_contra hblank
    exact hall ⟨c, hc, by simpa using hblank⟩
  rw [findNonBlank, hpred, List.findIdx?_eq_some_of_exists ⟨c, hc, hblank⟩]
  refine ⟨_, rfl, ?_⟩
  rw [List.dropWhile_eq_drop_findIdx_not, List.drop_drop, Nat.add_comm]

/-- In a line, the value that ends with it. -/
def ValueFits (text : Str) : Prop :=
  let value := (text.takeWhile (· ≠ 10)).dropWhile blank
  if value.head? = some 34 then 34 ∈ value.tail ∨ 34 ∉ text.dropWhile (· ≠ 10)
  else value = [] ∨ ∃ c ∈ value, isTail c = false

theorem trimTail_eq {value : Str} (h : ∃ c ∈ value, isTail c = false) :
    trimTail value = (value.reverse.dropWhile isTail).reverse := by
  obtain ⟨c, hc, htail⟩ := h
  unfold trimTail
  split
  · rename_i hnil
    have hall := List.dropWhile_eq_nil_iff.mp hnil c (List.mem_reverse.mpr hc)
    rw [htail] at hall
    cases hall
  · rfl

theorem dropWhile_isTail {value : Str} (h : ¬∃ c ∈ value, isTail c = false) :
    value.reverse.dropWhile isTail = [] := by
  refine List.dropWhile_eq_nil_iff.mpr fun c hc => ?_
  by_contra htail
  exact h ⟨c, List.mem_reverse.mp hc, by simpa using htail⟩

/-- Whitespace alone is not trimmed. -/
theorem trimTail_blank {value : Str} (h : ¬∃ c ∈ value, isTail c = false) :
    trimTail value = value := by
  rw [trimTail, dropWhile_isTail h]

theorem indexOf_byte_eq_none {b : UInt8} {text : Str} (h : b ∉ text) : indexOf [b] text = none := by
  cases hfound : indexOf [b] text with
  | none => rfl
  | some k =>
      refine absurd ?_ h
      rw [(indexOf_byte hfound).1]
      simp

theorem textValue_quoted {value behind : Str} :
    textValue (34 :: (value ++ 10 :: behind)) =
      (if 34 ∈ value then value.takeWhile (· ≠ 34) else []) ↔
      34 ∈ value ∨ 34 ∉ 10 :: behind := by
  simp only [textValue, List.head?_cons, if_true, List.tail_cons]
  by_cases hin : 34 ∈ value
  · obtain ⟨quoted, rest, rfl, hfirst⟩ := List.eq_append_cons_of_mem hin
    have hquoted : ∀ c ∈ quoted, decide (c ≠ 34) = true :=
      fun c hc => decide_eq_true fun heq => hfirst (heq ▸ hc)
    rw [if_pos hin, List.append_assoc, List.cons_append, indexOf_byte_of hfirst]
    refine iff_of_true ?_ (.inl hin)
    dsimp only
    rw [List.take_left, List.takeWhile_append_of_pos hquoted]
    simp
  · rw [if_neg hin]
    by_cases hlater : 34 ∈ 10 :: behind
    · obtain ⟨quoted, rest, hsplit, hfirst⟩ :=
        List.eq_append_cons_of_mem (List.mem_append_right value hlater)
      rw [hsplit, indexOf_byte_of hfirst]
      refine iff_of_false ?_ ?_
      · dsimp only
        rw [List.take_left]
        rintro rfl
        cases value with
        | nil => simp at hsplit
        | cons b value =>
            have hhead := (List.cons.inj hsplit).1
            exact hin (hhead ▸ List.mem_cons_self)
      · rintro (h | h)
        · exact hin h
        · exact h hlater
    · have hnone : 34 ∉ value ++ 10 :: behind := by
        rw [List.mem_append, not_or]
        exact ⟨hin, hlater⟩
      rw [indexOf_byte_eq_none hnone]
      exact iff_of_true rfl (.inr hlater)

/-- The engine takes the value of a line exactly when the value ends with it. -/
theorem textValue_line {line behind : Str} (hline : 10 ∉ line) :
    textValue ((line ++ 10 :: behind).dropWhile blank) = lineValue line ↔
      ValueFits (line ++ 10 :: behind) := by
  have hbytes : ∀ b ∈ line, decide (b ≠ 10) = true :=
    fun b hb => decide_eq_true fun heq => hline (heq ▸ hb)
  have hdrop : (line ++ 10 :: behind).dropWhile blank = line.dropWhile blank ++ 10 :: behind := by
    rw [List.dropWhile_append]
    split
    · rename_i hnil
      rw [List.isEmpty_iff.mp hnil]
      rfl
    · rfl
  have htake : (line ++ 10 :: behind).takeWhile (· ≠ 10) = line := by
    rw [List.takeWhile_append_of_pos hbytes]
    simp
  have hbehind : (line ++ 10 :: behind).dropWhile (· ≠ 10) = 10 :: behind := by
    rw [List.dropWhile_append_of_pos hbytes]
    simp
  have hvalue : 10 ∉ line.dropWhile blank :=
    fun hmem => hline ((List.dropWhile_sublist _).subset hmem)
  rw [ValueFits, htake, hbehind, hdrop, lineValue]
  generalize line.dropWhile blank = value at hvalue
  cases value with
  | nil => exact iff_of_true rfl (.inl rfl)
  | cons b value =>
      by_cases hquote : b = 34
      · subst hquote
        exact textValue_quoted
      · have hhead : some b ≠ some 34 := fun heq => hquote (Option.some.inj heq)
        have hvalue' : (match b :: value with
            | 34 :: quoted => if 34 ∈ quoted then quoted.takeWhile (· ≠ 34) else []
            | value => (value.reverse.dropWhile isTail).reverse) =
            ((b :: value).reverse.dropWhile isTail).reverse := by
          split
          · rename_i heq
            exact absurd (List.cons.inj heq).1 hquote
          · rfl
        rw [hvalue', textValue, List.cons_append, List.head?_cons, if_neg hhead,
          ← List.cons_append, indexOf_byte_of hvalue]
        dsimp only
        rw [List.take_left, List.head?_cons, if_neg hhead]
        by_cases hkept : ∃ c ∈ b :: value, isTail c = false
        · exact iff_of_true (trimTail_eq hkept) (.inr hkept)
        · rw [trimTail_blank hkept, dropWhile_isTail hkept]
          refine iff_of_false (List.cons_ne_nil b value) ?_
          rw [not_or]
          exact ⟨List.cons_ne_nil b value, hkept⟩

/-- What a text carries as a value, up to its own quote or line feed. -/
def Carries (text value : Str) : Prop :=
  match text.dropWhile blank with
  | 34 :: quoted => (34 ∉ value ∧ value ++ [34] <+: quoted) ∨ 34 ∉ quoted ∧ value = []
  | held => ∃ line, (10 ∉ line ∧ line ++ [10] <+: held) ∧ value = trimTail line

theorem take_byte_iff {b : UInt8} {text value : Str} {k : Nat} (h : indexOf [b] text = some k) :
    text.take k = value ↔ b ∉ value ∧ value ++ [b] <+: text := by
  constructor
  · rintro rfl
    obtain ⟨hcut, hmem⟩ := indexOf_byte h
    refine ⟨hmem, text.drop (k + 1), ?_⟩
    conv_rhs => rw [hcut]
    simp
  · rintro ⟨hvalue, rest, rfl⟩
    rw [List.append_assoc, List.singleton_append] at h ⊢
    rw [indexOf_byte_of hvalue] at h
    cases h
    exact List.take_left

theorem textValue_eq_iff {text : Str} (h : 10 ∈ text) (value : Str) :
    textValue (text.dropWhile blank) = value ↔ Carries text value := by
  have hfeed : 10 ∈ text.dropWhile blank := by
    have hall := List.takeWhile_append_dropWhile (p := blank) (l := text)
    rw [← hall, List.mem_append] at h
    refine h.resolve_left fun hmem => ?_
    have hblank := List.mem_takeWhile_imp hmem
    cases hblank
  rw [Carries]
  split
  · rename_i quoted hheld
    simp only [hheld, textValue, List.head?_cons, if_true, List.tail_cons]
    cases hfound : indexOf [34] quoted with
    | none =>
        have hnone := indexOf_byte_none hfound
        constructor
        · rintro rfl
          exact .inr ⟨hnone, rfl⟩
        · rintro (⟨-, hfront⟩ | ⟨-, rfl⟩)
          · exact absurd (hfront.subset (by simp)) hnone
          · rfl
    | some k =>
        have hin : 34 ∈ quoted := by
          rw [(indexOf_byte hfound).1]
          simp
        dsimp only
        rw [take_byte_iff hfound]
        simp [hin]
  · rename_i hheld
    have hhead : (text.dropWhile blank).head? ≠ some 34 := by
      intro hquote
      obtain ⟨quoted, hquoted⟩ := List.head?_eq_some_iff.mp hquote
      exact hheld quoted hquoted
    rw [textValue, if_neg hhead]
    cases hfound : indexOf [10] (text.dropWhile blank) with
    | none => exact absurd hfeed (indexOf_byte_none hfound)
    | some k =>
        dsimp only
        simp only [← take_byte_iff hfound, exists_eq_left']
        exact eq_comm

/-- The key is on one line and is first found where a line starts. -/
def StartsLine (frontmatter key : Str) (k : Nat) : Prop :=
  10 ∉ key ∧ (k = 0 ∨ (frontmatter.take k).getLast? = some 10)

/-- Where the key is first found, it starts a line and its value ends with the line. Found
elsewhere, it carries the value nevertheless. -/
def KeyFits (frontmatter key value : Str) : Prop :=
  ∀ k, indexOf (key ++ [58]) frontmatter = some k →
    let behind := frontmatter.drop (k + key.length + 1)
    (StartsLine frontmatter key k → ValueFits behind) ∧
      (¬StartsLine frontmatter key k → Carries behind value)

def FieldFits (content key : Str) : Prop :=
  match frontmatterRange content with
  | none => True
  | some (frontStart, frontEnd) =>
      KeyFits (substr content frontStart (frontEnd - frontStart)) key (blockField content key)

theorem key_ne_nil (key : Str) : key ++ [58] ≠ [] := by simp

/-- Where the key is found at the start of a line, it starts the first line that it starts. -/
theorem line_of_found {front : List Str} (hlines : ∀ line ∈ front, 10 ∉ line) {needle : Str}
    (hne : needle ≠ []) (hneedle : 10 ∉ needle) {before after : Str} (hstart : LineStart before)
    (hsplit : unlines 10 front = before ++ (needle ++ after))
    (hfound : indexOf needle (unlines 10 front) = some before.length) :
    ∃ value behind, after = value ++ 10 :: behind ∧ 10 ∉ value ∧
      front.find? needle.isPrefixOf = some (needle ++ value) := by
  obtain ⟨above, habove, rfl⟩ := hstart
  have hfront : front = above ++ lines 10 (needle ++ after) := by
    have hlines' := lines_unlines_append 10 hlines []
    rw [List.append_nil, hsplit, lines_unlines_append 10 habove] at hlines'
    rw [hlines', lines, List.append_nil]
  have hmem : 10 ∈ needle ++ after := by
    by_contra hnone
    have hrest := LineFeed.remainder_unlines 10 front
    rw [hsplit, LineFeed.remainder_append, LineFeed.remainder_unlines, List.nil_append,
      LineFeed.remainder_of_lines_eq_nil 10 (LineFeed.lines_eq_nil 10 hnone)] at hrest
    exact hne (List.append_eq_nil_iff.mp hrest).1
  obtain ⟨value, behind, rfl, hvalue⟩ :=
    List.eq_append_cons_of_mem ((List.mem_append.mp hmem).resolve_left hneedle)
  have hline : 10 ∉ needle ++ value := by
    rw [List.mem_append, not_or]
    exact ⟨hneedle, hvalue⟩
  refine ⟨value, behind, rfl, hvalue, ?_⟩
  have hnone : above.find? needle.isPrefixOf = none := by
    refine List.find?_eq_none.mpr fun line hmem' hstarts => ?_
    obtain ⟨rest, rfl⟩ := List.isPrefixOf_iff_prefix.mp hstarts
    obtain ⟨a, b, rfl⟩ := List.append_of_mem hmem'
    have hearlier : unlines 10 front = unlines 10 a ++ (needle ++
        (rest ++ 10 :: unlines 10 b ++ (needle ++ (value ++ 10 :: behind)))) := by
      rw [hsplit]
      simp
    have hle := indexOf_le hfound hearlier
    simp only [LineFeed.unlines_append, LineFeed.unlines_cons, List.length_append,
      List.length_cons] at hle
    omega
  rw [hfront, List.find?_append, hnone, Option.none_or, ← List.append_assoc,
    LineFeed.lines_append_sep 10 hline, List.find?_cons_of_pos]
  exact List.isPrefixOf_iff_prefix.mpr (List.prefix_append needle value)

theorem find?_eq_none_of_not_found {front : List Str} {needle : Str}
    (h : indexOf needle (unlines 10 front) = none) : front.find? needle.isPrefixOf = none := by
  refine List.find?_eq_none.mpr fun line hline hfront => ?_
  obtain ⟨value, rfl⟩ := List.isPrefixOf_iff_prefix.mp hfront
  obtain ⟨a, b, rfl⟩ := List.append_of_mem hline
  refine indexOf_ne_none (unlines 10 a) needle (value ++ 10 :: unlines 10 b) ?_
  rw [← h]
  simp

/-- What the engine takes where it finds the key. -/
theorem extract_of_found {content frontmatter before after key : Str} {frontStart frontEnd : Nat}
    (hrange : frontmatterRange content = some (frontStart, frontEnd))
    (hcontent : substr content frontStart (frontEnd - frontStart) = frontmatter)
    (hsplit : frontmatter = before ++ (key ++ [58] ++ after)) (hafter : 10 ∈ after)
    (hfound : indexOf (key ++ [58]) frontmatter = some before.length) :
    extractFrontmatterField content key = textValue (after.dropWhile blank) := by
  have hdrop : frontmatter.drop (before.length + (key ++ [58]).length) = after := by
    rw [hsplit, ← List.append_assoc]
    exact List.drop_left' List.length_append
  have hbehind :
      (frontmatter.drop (before.length + (key ++ [58]).length)).dropWhile blank ≠ [] := by
    rw [hdrop]
    intro hnil
    have hblank := List.dropWhile_eq_nil_iff.mp hnil 10 hafter
    cases hblank
  obtain ⟨valStart, hvalStart, hat⟩ := findNonBlank_eq hbehind
  rw [extractFrontmatterField, hrange]
  dsimp only
  rw [hcontent, findFrom_eq (key_ne_nil key), List.drop_zero, hfound, Option.map_some,
    Nat.add_zero]
  dsimp only
  rw [hvalStart]
  dsimp only
  rw [valueAt_eq, hat, hdrop]

/-- Behind a key there is a line feed. -/
theorem feed_mem {front : List Str} (hlines : ∀ line ∈ front, 10 ∉ line) {before key after : Str}
    (h : unlines 10 front = before ++ (key ++ [58] ++ after)) : 10 ∈ after := by
  rcases (lineStart_iff (unlines 10 front)).mp ⟨front, hlines, rfl⟩ with hnil | hlast
  · rw [h] at hnil
    simp at hnil
  · rw [h] at hlast
    cases after with
    | nil => simp at hlast
    | cons b after =>
        rw [← List.append_assoc, List.getLast?_append_of_ne_nil _ (List.cons_ne_nil b after)]
          at hlast
        exact List.mem_of_getLast? hlast

theorem field_of_lines {content : Str} {front : List Str} {body key : Str}
    (hlines : ∀ line ∈ front, 10 ∉ line)
    (hrange : frontmatterRange content = some (4, (unlines 10 front).length + 4))
    (hcontent : substr content 4 (unlines 10 front).length = unlines 10 front)
    (hblock : frontmatterBlock content = some (front, body)) :
    extractFrontmatterField content key = blockField content key ↔
      KeyFits (unlines 10 front) key (blockField content key) := by
  cases hfound : indexOf (key ++ [58]) (unlines 10 front) with
  | none =>
      refine iff_of_true ?_ fun k hk => ?_
      · rw [extractFrontmatterField, hrange, blockField, hblock]
        dsimp only
        rw [Nat.add_sub_cancel, hcontent, findFrom_eq (key_ne_nil key), List.drop_zero, hfound,
          find?_eq_none_of_not_found hfound]
        rfl
      · rw [hfound] at hk
        cases hk
  | some k =>
      obtain ⟨before, after, hsplit, rfl⟩ := indexOf_split hfound
      have hafter := feed_mem hlines hsplit
      have hlength : before.length + key.length + 1 = before.length + (key ++ [58]).length := by
        rw [List.length_append, List.length_singleton, Nat.add_assoc]
      have hbehind : (unlines 10 front).drop (before.length + key.length + 1) = after := by
        rw [hlength, hsplit, ← List.append_assoc]
        exact List.drop_left' List.length_append
      have hfits : KeyFits (unlines 10 front) key (blockField content key) ↔
          (StartsLine (unlines 10 front) key before.length → ValueFits after) ∧
          (¬StartsLine (unlines 10 front) key before.length →
            Carries after (blockField content key)) := by
        simp only [KeyFits, hfound, Option.some.injEq, forall_eq', hbehind]
      rw [hfits, extract_of_found hrange (by rwa [Nat.add_sub_cancel]) hsplit hafter hfound]
      by_cases hstart : StartsLine (unlines 10 front) key before.length
      · have hneedle : 10 ∉ key ++ [58] := by simp [hstart.1]
        have hlineStart : LineStart before := by
          rw [lineStart_iff]
          rcases hstart.2 with hzero | hlast
          · exact .inl (List.length_eq_zero_iff.mp hzero)
          · rw [hsplit, List.take_left] at hlast
            exact .inr hlast
        obtain ⟨value, behind, rfl, hfree, hfind⟩ :=
          line_of_found hlines (key_ne_nil key) hneedle hlineStart hsplit hfound
        have hrest : (key ++ [58] ++ value).drop (key.length + 1) = value :=
          List.drop_left' (by simp)
        have hvalue : blockField content key = lineValue value := by
          rw [blockField, hblock]
          dsimp only
          rw [hfind]
          dsimp only
          rw [hrest]
        rw [hvalue, textValue_line hfree]
        simp only [hstart, not_true_eq_false, true_imp_iff, false_imp_iff, and_true]
      · rw [textValue_eq_iff hafter]
        simp only [hstart, not_false_eq_true, true_imp_iff, false_imp_iff, true_and]

/-- Without two fences there is no block. -/
theorem block_of_no_range {content : Str} (h : frontmatterRange content = none)
    (hbody : BodyFits content) : frontmatterBlock content = none := by
  rw [BodyFits, h] at hbody
  cases hfound : frontmatterBlock content with
  | none => rfl
  | some found =>
      obtain ⟨front, body⟩ := found
      obtain ⟨rest, rfl, hclosing⟩ := fence_of_block hfound
      have hnone : indexOf fence rest = none := by
        rw [range_of_fence] at h
        exact Option.map_eq_none_iff.mp h
      rcases closing_split hclosing with ⟨before, -, rfl⟩ | ⟨-, hlast, -⟩
      · exact absurd hnone (indexOf_ne_none before fence body)
      · rw [remainder_fence] at hbody
        exact absurd ⟨List.prefix_append fence rest, hlast⟩ hbody

/-- A range that fits is a block. -/
theorem block_of_range {content : Str} {frontStart frontEnd : Nat}
    (h : frontmatterRange content = some (frontStart, frontEnd)) (hbody : BodyFits content) :
    ∃ (front : List Str) (body : Str), (∀ line ∈ front, 10 ∉ line) ∧
      frontStart = 4 ∧ frontEnd = (unlines 10 front).length + 4 ∧
      substr content 4 (unlines 10 front).length = unlines 10 front ∧
      frontmatterBlock content = some (front, body) := by
  rw [BodyFits, h] at hbody
  obtain ⟨rfl, hlast⟩ := hbody
  obtain ⟨rest, rfl⟩ := fence_of_range h
  rw [range_of_fence] at h
  obtain ⟨k, hk, hrange⟩ := Option.map_eq_some_iff.mp h
  obtain rfl : k + 4 = frontEnd := (Prod.mk.inj hrange).2
  obtain ⟨before, body, rfl, rfl⟩ := indexOf_split hk
  obtain ⟨front, hlines, rfl⟩ := (take_fence before (fence ++ body)).mp hlast
  refine ⟨front, body, hlines, rfl, rfl, ?_, ?_⟩
  · have hdrop : (fence ++ (unlines 10 front ++ (fence ++ body))).drop 4 =
        unlines 10 front ++ (fence ++ body) := rfl
    rw [substr, hdrop, List.take_left]
  · rw [block_of_fence, closing_of_fence hlines (dashes_not_mem hk)]

/-- With the fences where they should be, the engine reads a field of the block exactly when
the field fits. -/
theorem field_eq_iff {content : Str} (hbody : BodyFits content) (key : Str) :
    extractFrontmatterField content key = blockField content key ↔ FieldFits content key := by
  cases hrange : frontmatterRange content with
  | none =>
      rw [extractFrontmatterField, FieldFits, hrange, blockField,
        block_of_no_range hrange hbody]
      exact iff_of_true rfl trivial
  | some range =>
      obtain ⟨frontStart, frontEnd⟩ := range
      obtain ⟨front, body, hlines, rfl, rfl, hcontent, hblock⟩ := block_of_range hrange hbody
      rw [FieldFits, hrange]
      dsimp only
      rw [Nat.add_sub_cancel, hcontent]
      exact field_of_lines hlines hrange hcontent hblock

/-! ## The engine -/

/-- The engine reads a text by its frontmatter. -/
structure Reads (content key : Str) : Prop where
  field : extractFrontmatterField content key = blockField content key
  body : ∀ (dir : Str → Option Str) (dirPath folderName : Str), skillText dir = some content →
    (parseSkillDir dir dirPath folderName).body = blockBody content

theorem parseSkillDir_body {dir : Str → Option Str} {content : Str}
    (h : skillText dir = some content) (dirPath folderName : Str) :
    (parseSkillDir dir dirPath folderName).body = bodyOf content := by
  rw [parseSkillDir, h]

/-- The text is in a directory that has no other file. -/
theorem skillText_alone (content : Str) :
    skillText (fun file => if file = lit "SKILL.md" then some content else none) =
      some content := rfl

/-- A text is read by its frontmatter exactly when its fences and its first key fit. -/
theorem reads_iff (content key : Str) :
    Reads content key ↔ BodyFits content ∧ FieldFits content key := by
  constructor
  · intro h
    have hbody := h.body _ [] [] (skillText_alone content)
    rw [parseSkillDir_body (skillText_alone content), bodyOf_eq_iff] at hbody
    exact ⟨hbody, (field_eq_iff hbody key).mp h.field⟩
  · rintro ⟨hbody, hfield⟩
    refine ⟨(field_eq_iff hbody key).mpr hfield, ?_⟩
    intro dir dirPath folderName htext
    rw [parseSkillDir_body htext, (bodyOf_eq_iff content).mpr hbody]

/-- Two rules in a text without frontmatter take its beginning away. -/
theorem rules_are_fences :
    ¬Reads (lit "Steps\n---\nname: x\n---\nEnd\n") (lit "name") := by
  intro h
  have hfield := h.field
  revert hfield
  decide +kernel

end JiuwenCore.SkillEngine
