import JiuwenCore.Utils.ToolNames

/-!
# The action of a plain reply

`ParseAction` takes the first object of a reply as a call; where that fails it reads
the line behind the first `Action:`. A line that holds an object is handed to the same
function once more, together with the label in front of it.
-/

namespace JiuwenCore

/-- What `ParseAction` accepts as the name of a tool. -/
def PlausibleName (name : Str) : Prop :=
  name ≠ [] ∧ name.length < 50 ∧ 123 ∉ name ∧ 125 ∉ name

instance (name : Str) : Decidable (PlausibleName name) := inferInstanceAs (Decidable (_ ∧ _))

/-- The first object of the text; empty where its first brace opens none. -/
def firstObject (text : Str) : Str :=
  match indexOf [123] text with
  | some jsonStart => extractJson (text.drop jsonStart)
  | none => []

/-- The name that the first object of the text gives, if it has the key. -/
def objectName (text : Str) : Option Str :=
  (indexOf (lit "\"name\"") (firstObject text)).map (nameValue (firstObject text))

/-- The first strategy: the name of the first object and its arguments. -/
def jsonAction (response : Str) : Option (Str × Str) :=
  match objectName response with
  | none => none
  | some name =>
      if PlausibleName name then
        some (name,
          match indexOf (lit "\"arguments\"") (firstObject response) with
          | some argsKey => argumentsValue (firstObject response) argsKey
          | none => lit "\x7b\x7d")
      else none

/-- What stands behind the first `skip` bytes of the first line. -/
def lineBehind (text : Str) (skip : Nat) : Str :=
  match indexOf [10] text with
  | some lineEnd => substr text skip (lineEnd - skip)
  | none => text.drop skip

/-- The two `erase`s around a line, which leave a line of blanks as it is. -/
def stripBlanks (line : Str) : Str := if trimStr line = [] then line else trimStr line

/-- The position of the last occurrence of a byte. -/
def lastIndexOf (b : UInt8) (str : Str) : Option Nat :=
  (indexOf [b] str.reverse).map (str.length - 1 - ·)

/-- The line behind `Action:`. -/
def actionLine (response : Str) (actPos : Nat) : Str :=
  stripBlanks (lineBehind (response.drop actPos) 7)

/-- The second strategy on a line: the name without a brace group around it. -/
def lineName (actLine : Str) : Str :=
  let name :=
    if actLine.head? = some 123 then
      match indexOf [125] actLine with
      | some braceEnd => actLine.drop (braceEnd + 1)
      | none => actLine
    else actLine
  let name :=
    if name.getLast? = some 125 then
      match lastIndexOf 123 name with
      | some braceStart => name.take braceStart
      | none => name
    else name
  stripBlanks name

/-- What the line behind `Action Input:` says. -/
def lineInput (response : Str) : Str :=
  match indexOf (lit "Action Input:") response with
  | none => lit "\x7b\x7d"
  | some inputPos =>
      let input := stripBlanks (lineBehind (response.drop inputPos) 13)
      if input = [] then lit "\x7b\x7d"
      else if input.head? = some 123 then input
      else lit "\x7b\"input\": \"" ++ input ++ lit "\"\x7d"

/-- `ParseAction`, cut off after `fuel` calls: the name and the input it leaves. -/
@[grind =] def parseAction : Nat → Str → Option (Str × Str)
  | 0, _ => none
  | fuel + 1, response =>
      match jsonAction response with
      | some action => some action
      | none =>
          match indexOf (lit "Action:") response with
          | none => some ([], lit "\x7b\x7d")
          | some actPos =>
              let actLine := actionLine response actPos
              if actLine.head? = some 123 then parseAction fuel (response.drop actPos)
              else some (lineName actLine, lineInput response)

/-- `ParseAction` returns. -/
def Returns (response : Str) : Prop := ∃ fuel action, parseAction fuel response = some action

/-! ## The second call -/

theorem actionLine_drop (response : Str) (actPos : Nat) :
    actionLine (response.drop actPos) 0 = actionLine response actPos := by
  rw [actionLine, actionLine, List.drop_zero]

theorem jsonAction_eq_none_iff {response : Str} :
    jsonAction response = none ↔ ∀ name, objectName response = some name → ¬ PlausibleName name := by
  unfold jsonAction
  cases hname : objectName response with
  | none => simp
  | some name => by_cases hvalid : PlausibleName name <;> simp [hvalid]

/-- The text has no object of a call at its first brace. -/
def NoCall (text : Str) : Prop := ∀ name, objectName text = some name → ¬ PlausibleName name

/-- The replies on which the function calls itself with its own argument: neither the
reply nor what stands from `Action:` on has the object of a call, and the line is one
that starts with a brace. -/
def LoopsOn (response : Str) : Prop :=
  NoCall response ∧ ∃ actPos, indexOf (lit "Action:") response = some actPos ∧
    (actionLine response actPos).head? = some 123 ∧ NoCall (response.drop actPos)

theorem parseAction_of_call {response : Str} {action : Str × Str}
    (h : jsonAction response = some action) (fuel : Nat) :
    parseAction (fuel + 1) response = some action := by
  rw [parseAction, h]

theorem parseAction_again {response : Str} {actPos : Nat} (hcall : NoCall response)
    (hpos : indexOf (lit "Action:") response = some actPos)
    (hbrace : (actionLine response actPos).head? = some 123) (fuel : Nat) :
    parseAction (fuel + 1) response = parseAction fuel (response.drop actPos) := by
  rw [parseAction, jsonAction_eq_none_iff.mpr hcall, hpos]
  exact if_pos hbrace

/-- A text that starts with its `Action:` line is its own argument, at every depth. -/
theorem parseAction_stuck {text : Str} (hcall : NoCall text)
    (hpos : indexOf (lit "Action:") text = some 0) (hbrace : (actionLine text 0).head? = some 123)
    (fuel : Nat) : parseAction fuel text = none := by
  induction fuel with
  | zero => rfl
  | succ fuel ih =>
      rw [parseAction_again hcall hpos hbrace, List.drop_zero]
      exact ih

theorem LoopsOn.parseAction_eq_none {response : Str} (h : LoopsOn response) (fuel : Nat) :
    parseAction fuel response = none := by
  obtain ⟨hcall, actPos, hpos, hbrace, hrest⟩ := h
  cases fuel with
  | zero => rfl
  | succ fuel =>
      rw [parseAction_again hcall hpos hbrace]
      apply parseAction_stuck hrest
      · exact indexOf_drop hpos
      · rw [actionLine_drop]
        exact hbrace

/-- Every other reply is settled by the second call. -/
theorem parseAction_two {response : Str} (h : ¬ LoopsOn response) :
    ∃ action, parseAction 2 response = some action := by
  cases hcall : jsonAction response with
  | some action => exact ⟨action, parseAction_of_call hcall 1⟩
  | none =>
      have hnone := jsonAction_eq_none_iff.mp hcall
      cases hpos : indexOf (lit "Action:") response with
      | none => exact ⟨_, by rw [parseAction, hcall, hpos]⟩
      | some actPos =>
          by_cases hbrace : (actionLine response actPos).head? = some 123
          · rw [parseAction_again hnone hpos hbrace]
            cases hrest : jsonAction (response.drop actPos) with
            | some action => exact ⟨action, parseAction_of_call hrest 0⟩
            | none =>
                have hloops : LoopsOn response :=
                  ⟨hnone, actPos, hpos, hbrace, jsonAction_eq_none_iff.mp hrest⟩
                exact absurd hloops h
          · exists (lineName (actionLine response actPos), lineInput response)
            rw [parseAction, hcall, hpos]
            exact if_neg hbrace

/-- `ParseAction` returns on exactly the replies on which it does not call itself with
what it was given. -/
theorem returns_iff (response : Str) : Returns response ↔ ¬ LoopsOn response := by
  constructor
  · intro ⟨fuel, action, hreturn⟩ hloops
    rw [hloops.parseAction_eq_none] at hreturn
    cases hreturn
  · intro h
    obtain ⟨action, hreturn⟩ := parseAction_two h
    exact ⟨2, action, hreturn⟩

/-- A brace that is never closed, behind the label. -/
theorem openAction_loops : LoopsOn (lit "Action: \x7b") := by
  have hname : objectName (lit "Action: \x7b") = none := by decide
  have hcall : NoCall (lit "Action: \x7b") := by
    intro name h
    rw [hname] at h
    cases h
  exact ⟨hcall, 0, by decide, by decide, hcall⟩

theorem openAction_never_returns : ¬ ∀ response, Returns response := by
  intro hall
  obtain ⟨fuel, action, hreturn⟩ := hall (lit "Action: \x7b")
  rw [openAction_loops.parseAction_eq_none] at hreturn
  cases hreturn

example : parseAction 1 (lit "Action: echo\nAction Input: hi") =
    some (lit "echo", lit "\x7b\"input\": \"hi\"\x7d") := by decide

end JiuwenCore
