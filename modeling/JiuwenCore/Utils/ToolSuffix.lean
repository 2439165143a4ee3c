import JiuwenCore.Utils.ToolNames
import JiuwenCore.Lib.Utf8

/-!
# A text behind a reply

What the tool parser reads of a reply when something stands behind it. The objects that end
in the reply stay as they are; an open brace may be closed by what follows.
-/

namespace JiuwenCore

/-! ## Objects -/

/-- The state of the scanner behind a byte that is no backslash, unless it stops there. -/
def scanByte (depth : Nat) (inString : Bool) (b : UInt8) : Option (Nat × Bool) :=
  let inString := if b = 34 then !inString else inString
  if inString then some (depth, inString)
  else if b = 123 then some (depth + 1, inString)
  else if b = 125 then if depth = 1 then none else some (depth - 1, inString)
  else some (depth, inString)

theorem closingBrace_scanByte {depth : Nat} {inString : Bool} {b : UInt8} (hb : b ≠ 92)
    (rest : Str) :
    closingBrace depth inString (b :: rest) =
      match scanByte depth inString b with
      | none => some 1
      | some st => (closingBrace st.1 st.2 rest).map (· + 1) := by
  rw [closingBrace_cons hb]
  unfold scanByte
  dsimp only
  split_ifs <;> rfl

theorem scanByte_eq_none {depth : Nat} {inString : Bool} {b : UInt8}
    (h : scanByte depth inString b = none) : b = 125 := by
  unfold scanByte at h
  dsimp only at h
  split_ifs at h <;> assumption

/-- The scanner stops at a closing brace, whatever stands behind it. -/
theorem closingBrace_found {depth : Nat} {inString : Bool} {s : Str} {n : Nat}
    (h : closingBrace depth inString s = some n) :
    (∃ u after, s = u ++ 125 :: after ∧ n = u.length + 1) ∧
      ∀ v, closingBrace depth inString (s ++ v) = some n := by
  induction hlength : s.length using Nat.strong_induction_on generalizing s depth inString n with
  | _ length ih =>
      cases s with
      | nil => simp [closingBrace] at h
      | cons b rest =>
          by_cases hb : b = 92
          · subst hb
            cases rest with
            | nil =>
                rw [closingBrace] at h
                · simp [closingBrace] at h
                · simp
            | cons c rest =>
                rw [closingBrace, Option.map_eq_some_iff] at h
                rcases h with ⟨k, hk, rfl⟩
                have hshort : rest.length < length := by
                  simp only [List.length_cons] at hlength
                  omega
                rcases ih rest.length hshort hk rfl with ⟨⟨u, after, rfl, rfl⟩, happend⟩
                refine ⟨⟨92 :: c :: u, after, rfl, rfl⟩, fun v => ?_⟩
                rw [List.cons_append, List.cons_append, closingBrace, happend]
                rfl
          · rw [closingBrace_scanByte hb] at h
            cases hscan : scanByte depth inString b with
            | none =>
                rw [hscan] at h
                cases h
                refine ⟨⟨[], rest, by rw [scanByte_eq_none hscan, List.nil_append], rfl⟩, fun v => ?_⟩
                rw [List.cons_append, closingBrace_scanByte hb, hscan]
            | some st =>
                simp only [hscan, Option.map_eq_some_iff] at h
                rcases h with ⟨k, hk, rfl⟩
                have hshort : rest.length < length := by
                  simp only [List.length_cons] at hlength
                  omega
                rcases ih rest.length hshort hk rfl with ⟨⟨u, after, rfl, rfl⟩, happend⟩
                refine ⟨⟨b :: u, after, rfl, rfl⟩, fun v => ?_⟩
                rw [List.cons_append, closingBrace_scanByte hb, hscan]
                simp only [happend, Option.map_some]

/-- An object starts and ends with a brace, and is found whatever stands behind it. -/
theorem extractJson_found {s : Str} (h : extractJson s ≠ []) :
    ∃ u after, s = 123 :: u ++ 125 :: after ∧ extractJson s = 123 :: u ++ [125] ∧
      ∀ v, extractJson (s ++ v) = 123 :: u ++ [125] := by
  have hhead : s.head? = some 123 := by
    by_contra hhead
    rw [extractJson, if_neg hhead] at h
    exact h rfl
  cases hn : closingBrace 0 false s with
  | none =>
      rw [extractJson, if_pos hhead, hn] at h
      exact absurd rfl h
  | some n =>
      obtain ⟨⟨u, after, rfl, rfl⟩, happend⟩ := closingBrace_found hn
      cases u with
      | nil => cases hhead
      | cons c u =>
          cases hhead
          refine ⟨u, after, rfl, ?_, fun v => ?_⟩
          · have hfront : (123 :: u ++ 125 :: after : Str).head? = some 123 := rfl
            rw [extractJson, if_pos hfront, hn]
            simp [List.take_append]
          · have hfront : (123 :: u ++ 125 :: after ++ v : Str).head? = some 123 := rfl
            rw [extractJson, if_pos hfront, happend v]
            simp [List.take_append]

/-! ## The loop -/

/-- The text from the first open brace on that `v` closes, if there is one. -/
@[grind =] def firstClosed (v : Str) : Nat → Str → Option Str
  | _, [] => none
  | passing + 1, _ :: rest => firstClosed v passing rest
  | 0, c :: rest =>
      match extractJson (c :: rest) with
      | [] => if extractJson (c :: rest ++ v) = [] then firstClosed v 0 rest else some (c :: rest)
      | jsonStr => firstClosed v (jsonStr.length - 1) rest

theorem firstClosed_open {v : Str} {c : UInt8} {rest : Str} (h : extractJson (c :: rest) = []) :
    firstClosed v 0 (c :: rest) =
      if extractJson (c :: rest ++ v) = [] then firstClosed v 0 rest else some (c :: rest) := by
  rw [firstClosed, h]

theorem firstClosed_closed {v : Str} {c : UInt8} {rest : Str} (h : extractJson (c :: rest) ≠ []) :
    firstClosed v 0 (c :: rest) =
      firstClosed v ((extractJson (c :: rest)).length - 1) rest := by
  rw [firstClosed]
  split
  · contradiction
  · rfl

/-- What stays of an object when something stands behind the reply. -/
theorem extractJson_kept {c : UInt8} {rest : Str} (h : extractJson (c :: rest) ≠ []) (v : Str) :
    extractJson (c :: (rest ++ v)) = extractJson (c :: rest) ∧
      (extractJson (c :: rest)).length - 1 ≤ rest.length := by
  obtain ⟨u, after, hcut, hfound, happend⟩ := extractJson_found h
  have hwhole := congrArg List.length hcut
  rw [hfound]
  refine ⟨happend v, ?_⟩
  simp only [List.length_append, List.length_cons, List.length_nil] at hwhole ⊢
  omega

/-- Without such a brace, the calls of the text follow those of the reply. -/
theorem extractFrom_append {v : Str} {passing : Nat} {s : Str} (hpassing : passing ≤ s.length)
    (h : firstClosed v passing s = none) :
    extractFrom passing (s ++ v) = extractFrom passing s ++ extractFrom 0 v := by
  induction s generalizing passing with
  | nil =>
      obtain rfl : passing = 0 := by simpa using hpassing
      simp [extractFrom]
  | cons c rest ih =>
      cases passing with
      | succ passing =>
          rw [firstClosed] at h
          rw [List.cons_append, extractFrom, extractFrom]
          exact ih (by simpa using hpassing) h
      | zero =>
          by_cases hobject : extractJson (c :: rest) = []
          · rw [firstClosed_open hobject] at h
            split at h
            · rename_i hopen
              rw [List.cons_append] at hopen ⊢
              rw [extractFrom_open hobject, extractFrom_open hopen]
              exact ih (Nat.zero_le _) h
            · cases h
          · obtain ⟨hsame, hlength⟩ := extractJson_kept hobject v
            rw [firstClosed_closed hobject] at h
            rw [List.cons_append, extractFrom_closed (by rwa [hsame]), hsame,
              extractFrom_closed hobject, List.append_assoc, ih hlength h]

/-- From such a brace on, the parser reads what starts there. -/
theorem extractFrom_append_of_closed {v : Str} {passing : Nat} {s t : Str}
    (h : firstClosed v passing s = some t) :
    ∃ before, extractFrom passing s = before ++ extractFrom 0 (t.drop 1) ∧
      extractFrom passing (s ++ v) = before ++ extractFrom 0 (t ++ v) := by
  induction s generalizing passing with
  | nil => cases passing <;> cases h
  | cons c rest ih =>
      cases passing with
      | succ passing =>
          rw [firstClosed] at h
          rw [List.cons_append, extractFrom, extractFrom]
          exact ih h
      | zero =>
          by_cases hobject : extractJson (c :: rest) = []
          · rw [firstClosed_open hobject] at h
            split at h
            · rename_i hopen
              rw [List.cons_append] at hopen ⊢
              rw [extractFrom_open hobject, extractFrom_open hopen]
              exact ih h
            · cases h
              exact ⟨[], extractFrom_open hobject, rfl⟩
          · obtain ⟨hsame, _⟩ := extractJson_kept hobject v
            rw [firstClosed_closed hobject] at h
            obtain ⟨before, hreply, hboth⟩ := ih h
            refine ⟨(parseToolCall (extractJson (c :: rest))).toList ++ before, ?_, ?_⟩
            · rw [extractFrom_closed hobject, hreply, List.append_assoc]
            · rw [List.cons_append, extractFrom_closed (by rwa [hsame]), hsame, hboth,
                List.append_assoc]

/-- With the text behind the reply, an object starts at the brace. -/
theorem firstClosed_some {v : Str} {passing : Nat} {s t : Str}
    (h : firstClosed v passing s = some t) : extractJson (t ++ v) ≠ [] := by
  induction s generalizing passing with
  | nil => cases passing <;> cases h
  | cons c rest ih =>
      cases passing with
      | succ passing =>
          rw [firstClosed] at h
          exact ih h
      | zero =>
          by_cases hobject : extractJson (c :: rest) = []
          · rw [firstClosed_open hobject] at h
            split at h
            · exact ih h
            · rename_i hclosed
              cases h
              exact hclosed
          · rw [firstClosed_closed hobject] at h
            exact ih h

/-! ## Calls of a UTF-8 text -/

open Utf8 (Text)

theorem text_ascii {b : UInt8} (hb : b ≤ 0x7F) {u : Str} (hu : Text u) : Text (b :: u) :=
  (Text.append_ascii_iff hb (s := [])).mpr ⟨.nil, hu⟩

theorem extractJson_text {s before rest : Str} (hs : Text s) (hcut : s = before ++ rest)
    (h : extractJson rest ≠ []) : Text (extractJson rest) := by
  obtain ⟨u, after, hrest, hfound, _⟩ := extractJson_found h
  have hopen : s = before ++ 123 :: (u ++ 125 :: after) := by
    rw [hcut, hrest, List.cons_append]
  have hinner := (hs.cut hopen (by decide)).2
  have hu := (hinner.cut rfl (by decide)).1
  rw [hfound, List.cons_append]
  exact text_ascii (by decide) ((Text.append_ascii_iff (by decide)).mpr ⟨hu, .nil⟩)

theorem quotedText_text {s v : Str} {pos : Nat} (hs : Text s) (h : quotedText s pos = some v) :
    Text v := by
  rw [quotedText_eq, quotedFront_eq_some] at h
  rcases h with ⟨_, rest, hrest⟩
  have hopen : s = s.take pos ++ 34 :: (v ++ 34 :: rest) := by
    conv_lhs => rw [← List.take_append_drop pos s, ← hrest]
    simp
  exact ((hs.cut hopen (by decide)).2.cut rfl (by decide)).1

theorem nameValue_text {s : Str} (hs : Text s) (nameKey : Nat) : Text (nameValue s nameKey) := by
  unfold nameValue
  cases hname : (valueStart s (nameKey + 6)).bind (quotedText s) with
  | none => exact .nil
  | some v =>
      rw [Option.bind_eq_some_iff] at hname
      rcases hname with ⟨pos, _, hquoted⟩
      exact quotedText_text hs hquoted

theorem argumentsValue_text {s : Str} (hs : Text s) (argsKey : Nat) :
    Text (argumentsValue s argsKey) ∧ argumentsValue s argsKey ≠ [] := by
  have hempty : Text (lit "\x7b\x7d") ∧ lit "\x7b\x7d" ≠ [] := by decide
  unfold argumentsValue
  cases valueStart s (argsKey + 11) with
  | none => exact hempty
  | some pos =>
      dsimp only
      split
      · split
        · exact hempty
        · rename_i hobject
          exact ⟨extractJson_text hs (List.take_append_drop pos s).symm hobject, hobject⟩
      · cases hquoted : quotedText s pos with
        | none => exact hempty
        | some v =>
            have hv := quotedText_text hs hquoted
            exact ⟨text_ascii (by decide) ((Text.append_ascii_iff (by decide)).mpr ⟨hv, .nil⟩),
              by simp⟩

theorem parseToolCall_text {s : Str} (hs : Text s) {p : ParsedToolCall}
    (h : parseToolCall s = some p) : (Text p.name ∧ Text p.arguments) ∧ p.arguments ≠ [] := by
  unfold parseToolCall at h
  split at h
  · rename_i nameKey argsKey _ _
    dsimp only at h
    split at h
    · cases h
      have harguments := argumentsValue_text hs argsKey
      exact ⟨⟨nameValue_text hs nameKey, harguments.1⟩, harguments.2⟩
    · cases h
  · cases h

/-- The calls of a UTF-8 text are UTF-8, and their arguments are not empty. -/
theorem extractFrom_text {s : Str} (hs : Text s) {before rest : Str} (hcut : s = before ++ rest)
    (passing : Nat) :
    ∀ p ∈ extractFrom passing rest, (Text p.name ∧ Text p.arguments) ∧ p.arguments ≠ [] := by
  induction rest generalizing before passing with
  | nil => cases passing <;> exact fun _ hp => absurd hp List.not_mem_nil
  | cons c rest ih =>
      have hnext : s = (before ++ [c]) ++ rest := by rw [hcut, List.append_assoc]; rfl
      cases passing with
      | succ passing =>
          rw [extractFrom]
          exact ih hnext passing
      | zero =>
          by_cases hobject : extractJson (c :: rest) = []
          · rw [extractFrom_open hobject]
            exact ih hnext 0
          · rw [extractFrom_closed hobject]
            intro p hp
            rcases List.mem_append.mp hp with hp | hp
            · have hjson := extractJson_text hs hcut hobject
              exact parseToolCall_text hjson (Option.mem_toList.mp hp)
            · exact ih hnext _ p hp

end JiuwenCore
