import JiuwenCore.Tools.ArgumentReading

/-!
# The arguments of a call

The value a call gives to a name is the one of the member of its object, where that has the
kind the tool asks for, and the default otherwise. The readers answer it under conditions
that differ from tool to tool.
-/

namespace JiuwenCore.Tools

open JsonSyntax

/-! ## What a call gives -/

def stringArgument (doc : Document) (key : Str) : Str :=
  match doc.valueAt key with
  | some (.string s) => s.decoded
  | _ => []

/-- A number with a fraction or an exponent is no integer, and one out of range no `int`. -/
def intArgument (doc : Document) (key : Str) (default : Int) : Int :=
  match doc.valueAt key with
  | some (.number n) => (n.integer.bind fits).getD default
  | _ => default

def boolArgument (doc : Document) (key : Str) (default : Bool) : Bool :=
  match doc.valueAt key with
  | some (.bool b) => b
  | _ => default

/-- The first `"key"` of the text is the name of the member, or there is none. -/
def Clear (doc : Document) (key : Str) : Prop :=
  indexOf (34 :: key ++ [34]) doc.text = none ∨
    ∃ front member back, OwnName doc key front member back

/-! ## When the readers answer it -/

/-- A name is spelled without escapes, its string stands in the line of its colon, and has no
escapes but the ones the tool knows. -/
def Readable (letters key : Str) (member : Member) (s : Pieces) : Prop :=
  member.name.text = key ∧ SameLine member ∧ s.Escapes letters

section Conditions

variable (doc : Document) (key : Str)

def StringRead (letters : Str) : Prop :=
  ∀ member ∈ doc.find key, ∀ s, member.value = .string s →
    s = [] ∨ Readable letters key member s

/-- A number is an integer, or the default is what is in front of its fraction and exponent.
A name spelled with escapes is not found, which is right where the number is the default. -/
def IntRead (default : Int) : Prop :=
  ∀ member ∈ doc.find key, ∀ n, member.value = .number n →
    if member.name.text = key then
      n.integer.isSome = true ∨ (fits n.wholePart).getD default = default
    else (n.integer.bind fits).getD default = default

/-- `grep` takes no boolean but the default, and a string for one. -/
def BoolQuoted (default : Bool) : Prop :=
  ∀ member ∈ doc.find key,
    (∀ b, member.value = .bool b → b = default) ∧
      ∀ s, member.value = .string s → member.name.text = key → SameLine member →
        boolOf s.text default = default

/-- `edit_file` takes a boolean in the line of its colon for a string. -/
def StringNotBool (letters : Str) : Prop :=
  StringRead doc key letters ∧
    ∀ member ∈ doc.find key, ∀ b, member.value = .bool b →
      member.name.text = key → ¬ SameLine member

/-- `edit_file` reads a boolean in the line of its colon, and takes a string for one. -/
def BoolRead (default : Bool) : Prop :=
  ∀ member ∈ doc.find key,
    (∀ b, member.value = .bool b → b = default ∨ member.name.text = key ∧ SameLine member) ∧
      ∀ s, member.value = .string s → member.name.text = key → SameLine member →
        boolOf (scanPieces escapeDecoded s) default = default

end Conditions

/-! ## Names that are not in the text -/

section Clear

variable {doc : Document} {key : Str}

/-- A name that is spelled without escapes is in the text. -/
theorem name_in_text {member : Member} (hfind : doc.find key = some member)
    (hname : member.name.text = key) : indexOf (34 :: key ++ [34]) doc.text ≠ none := by
  have hmem : member ∈ doc.members := by
    have hfound := List.mem_of_find?_eq_some hfind
    exact List.mem_reverse.mp hfound
  obtain ⟨front, back, hsplit⟩ := List.append_of_mem hmem
  rw [doc.text_split hsplit, hname]
  exact indexOf_ne_none _ _ _

theorem valueOf_none (h : indexOf (34 :: key ++ [34]) doc.text = none) :
    valueOf doc.text key = none := by
  rw [valueOf, findFrom_eq (by simp), List.drop_zero, h]
  rfl

theorem OwnName.find {front back : List Member} {member : Member}
    (h : OwnName doc key front member back) : doc.find key = some member :=
  Document.find_split h.split h.named h.last

/-- Where the name is not in the text, it is not spelled out as the name of a member. -/
theorem spelled_out {member : Member} (hnone : indexOf (34 :: key ++ [34]) doc.text = none)
    (hfind : doc.find key = some member) : member.name.text ≠ key :=
  fun hname => name_in_text hfind hname hnone

/-! ## The readers, kind by kind -/

theorem scanValue_iff {escaped : UInt8 → Str} {letters : Str} (hspelling : Spelling escaped letters)
    (hclear : Clear doc key) :
    scanValue escaped (valueOf doc.text key) = stringArgument doc key ↔
      StringRead doc key letters := by
  rcases hclear with hnone | ⟨front, member, back, hown⟩
  · rw [valueOf_none hnone, stringArgument, StringRead, Document.valueAt]
    cases hfind : doc.find key with
    | none => simp [scanValue]
    | some member =>
        have hname := spelled_out hnone hfind
        cases hvalue : member.value <;>
          simp [scanValue, Readable, hname, hvalue, Pieces.decoded_eq_nil_iff, eq_comm (a := ([] : Str))]
  · rw [scanValue_own escaped hown, stringArgument, StringRead, Document.valueAt, hown.find]
    have hname := hown.spelled
    cases hvalue : member.value with
    | string s =>
        have hpieces := hspelling.pieces_iff s
        by_cases hline : SameLine member
        · have hempty : s = [] ∨ s.Escapes letters ↔ s.Escapes letters := by
            refine or_iff_right_of_imp ?_
            rintro rfl piece hpiece
            cases hpiece
          simp [scanned, Readable, hvalue, hline, hname, hpieces, hempty]
        · simp [Readable, hvalue, hline, hname, Pieces.decoded_eq_nil_iff, eq_comm (a := ([] : Str))]
    | _ => simp [scanned, hvalue]

theorem parseInt_iff (hclear : Clear doc key) (default : Int) :
    parseInt doc.text key default = intArgument doc key default ↔ IntRead doc key default := by
  rcases hclear with hnone | ⟨front, member, back, hown⟩
  · rw [parseInt, valueOf_none hnone, intArgument, IntRead, Document.valueAt]
    cases hfind : doc.find key with
    | none => simp
    | some member =>
        have hname := spelled_out hnone hfind
        cases hvalue : member.value <;> simp [hname, hvalue, eq_comm (a := default)]
  · rw [parseInt_own hown, intArgument, IntRead, Document.valueAt, hown.find]
    have hname := hown.spelled
    cases hvalue : member.value with
    | number n =>
        cases hinteger : n.integer with
        | none => simp [hname, hvalue, hinteger]
        | some i =>
            have hwhole := Number.integer_eq_some hinteger
            simp [hname, hvalue, hinteger, hwhole]
    | _ => simp [hvalue]

theorem scanPieces_written (pieces : Pieces) : scanPieces escapeWritten pieces = pieces.text := by
  refine List.flatMap_congr fun piece _ => ?_
  cases piece <;> rfl

theorem boolOf_nil (default : Bool) : boolOf [] default = default := rfl

theorem boolOf_true (default : Bool) : boolOf (lit "true") default = true := rfl

theorem boolOf_false (default : Bool) : boolOf (lit "false") default = false := rfl

theorem GrepTool.parseBoolField_iff (hclear : Clear doc key) (default : Bool) :
    GrepTool.parseBoolField doc.text key default = boolArgument doc key default ↔
      BoolQuoted doc key default := by
  rw [GrepTool.parseBoolField, GrepTool.parseStringField]
  rcases hclear with hnone | ⟨front, member, back, hown⟩
  · rw [valueOf_none hnone, boolArgument, BoolQuoted, Document.valueAt]
    cases hfind : doc.find key with
    | none => simp [scanValue, boolOf_nil]
    | some member =>
        have hname := spelled_out hnone hfind
        cases hvalue : member.value with
        | bool b => cases b <;> simp [scanValue, boolOf_nil, hvalue]
        | _ => simp [scanValue, boolOf_nil, hname, hvalue]
  · rw [scanValue_own escapeWritten hown, boolArgument, BoolQuoted, Document.valueAt, hown.find]
    have hname := hown.spelled
    cases hvalue : member.value with
    | bool b => cases b <;> simp [scanned, boolOf_nil, hvalue]
    | string s =>
        by_cases hline : SameLine member <;>
          simp [scanned, scanPieces_written, boolOf_nil, hline, hname, hvalue]
    | _ => simp [scanned, boolOf_nil, hvalue]

namespace EditFileTool

theorem parseStringField_none (hnone : indexOf (34 :: key ++ [34]) doc.text = none) :
    parseStringField doc.text key = [] := by
  rw [parseStringField, valueOf_none hnone]
  rfl

theorem parseStringField_iff (hclear : Clear doc key) :
    parseStringField doc.text key = stringArgument doc key ↔
      StringNotBool doc key [34, 92, 47, 110, 116] := by
  rw [StringNotBool, ← scanValue_iff spelling_decoded hclear]
  rcases hclear with hnone | ⟨front, member, back, hown⟩
  · rw [parseStringField_none hnone, valueOf_none hnone]
    refine (and_iff_left fun member hmember b _ hname => ?_).symm
    exact absurd hname (spelled_out hnone hmember)
  · have htrue : lit "true" ≠ [] := by decide
    have hfalse : lit "false" ≠ [] := by decide
    rw [parseStringField_own hown, scanValue_own escapeDecoded hown, stringArgument,
      Document.valueAt, hown.find]
    have hname := hown.spelled
    by_cases hline : SameLine member
    · cases hvalue : member.value with
      | bool b => cases b <;> simp [scanned, hline, hname, hvalue, htrue, hfalse]
      | _ => simp [hline, hvalue]
    · simp [hline]

theorem parseBoolField_iff (hclear : Clear doc key) (default : Bool) :
    parseBoolField doc.text key default = boolArgument doc key default ↔
      BoolRead doc key default := by
  rw [parseBoolField]
  rcases hclear with hnone | ⟨front, member, back, hown⟩
  · rw [parseStringField_none hnone, boolArgument, BoolRead, Document.valueAt]
    cases hfind : doc.find key with
    | none => simp [boolOf_nil]
    | some member =>
        have hname := spelled_out hnone hfind
        cases hvalue : member.value with
        | bool b => cases b <;> simp [boolOf_nil, hname, hvalue]
        | _ => simp [boolOf_nil, hname, hvalue]
  · rw [parseStringField_own hown, boolArgument, BoolRead, Document.valueAt, hown.find]
    have hname := hown.spelled
    cases hvalue : member.value with
    | bool b =>
        by_cases hline : SameLine member
        · cases b <;> simp [boolOf_true, boolOf_false, hline, hname, hvalue]
        · cases b <;> simp [boolOf_nil, hline, hvalue]
    | string s =>
        by_cases hline : SameLine member <;> simp [scanned, boolOf_nil, hline, hname, hvalue]
    | _ => simp [scanned, boolOf_nil, hvalue]

end EditFileTool

/-- The readers of the four tools, each with the condition under which it answers what the
call gives. -/
theorem argument_readers_iff (hclear : Clear doc key) :
    ((ReadFileTool.parseStringField doc.text key = stringArgument doc key ↔
          StringRead doc key []) ∧
        ∀ default, ReadFileTool.parseIntField doc.text key default = intArgument doc key default ↔
          IntRead doc key default) ∧
      ((ExecTool.parseStringField doc.text key = stringArgument doc key ↔
          StringRead doc key []) ∧
        ∀ default, ExecTool.parseIntField doc.text key default = intArgument doc key default ↔
          IntRead doc key default) ∧
      ((GrepTool.parseStringField doc.text key = stringArgument doc key ↔
          StringRead doc key []) ∧
        (∀ default, GrepTool.parseIntField doc.text key default = intArgument doc key default ↔
          IntRead doc key default) ∧
        ∀ default, GrepTool.parseBoolField doc.text key default = boolArgument doc key default ↔
          BoolQuoted doc key default) ∧
      (EditFileTool.parseStringField doc.text key = stringArgument doc key ↔
          StringNotBool doc key [34, 92, 47, 110, 116]) ∧
        ∀ default,
          EditFileTool.parseBoolField doc.text key default = boolArgument doc key default ↔
            BoolRead doc key default := by
  have hstring := scanValue_iff spelling_written hclear
  have hint := parseInt_iff hclear
  exact ⟨⟨hstring, hint⟩, ⟨hstring, hint⟩, ⟨hstring, hint, GrepTool.parseBoolField_iff hclear⟩,
    EditFileTool.parseStringField_iff hclear, EditFileTool.parseBoolField_iff hclear⟩

end Clear

/-! ## Two calls -/

def seven : Number where
  negative := false
  whole := ⟨[55], by decide⟩
  noLeadingZero := by decide
  fraction := none
  exponent := none

def pageCall : Document :=
  .compact [(lit "path", .string (Pieces.ofBytes (lit "a.txt"))), (lit "offset", .number seven)]

theorem pageCall_read :
    ReadFileTool.parseIntField pageCall.text (lit "offset") 1 = 7 := by
  have hown : OwnName pageCall (lit "offset") [pageCall.members[0]] pageCall.members[1] [] :=
    { split := rfl
      spelled := rfl
      named := rfl
      last := by simp
      first := by decide }
  have hread : IntRead pageCall (lit "offset") 1 := by
    intro member hmember n hn
    rw [hown.find, Option.mem_some_iff] at hmember
    subst hmember
    cases hn
    exact .inl rfl
  exact ((argument_readers_iff (.inr ⟨_, _, _, hown⟩)).1.2 1).mpr hread

def echoCall : Document :=
  .compact [(lit "command", .string (Pieces.ofBytes (lit "echo ") ++
    [.short .quote, .short .quote])), (lit "case_insensitive", .bool true)]

/-- The backslashes of a call reach the shell, and a boolean does not reach `grep`. -/
theorem echoCall_misread :
    echoCall.text = lit "\x7b\"command\":\"echo \\\"\\\"\",\"case_insensitive\":true\x7d" ∧
      ExecTool.parseStringField echoCall.text (lit "command") = lit "echo \\\"\\\"" ∧
      ExecTool.parseStringField echoCall.text (lit "command") ≠
        stringArgument echoCall (lit "command") ∧
      GrepTool.parseBoolField echoCall.text (lit "case_insensitive") false ≠
        boolArgument echoCall (lit "case_insensitive") false := by
  decide

end JiuwenCore.Tools
