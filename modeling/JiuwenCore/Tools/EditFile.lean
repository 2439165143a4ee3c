import JiuwenCore.Lib.InPlace
import JiuwenCore.Tools.Arguments
import JiuwenCore.Tools.Disk
import JiuwenCore.Utils.ToolNames

/-!
# Editing a file

`edit_file` replaces a text of a file, one occurrence or all of them. The occurrences are the
ones a search from the front meets, each behind the one before it.
-/

namespace JiuwenCore.Tools.EditFileTool

/-! ## The tool -/

structure Arguments where
  filePath : Str
  oldText : Str
  newText : Str
  replaceAll : Bool
  deriving DecidableEq, Repr

/-- The count of the occurrences from `pos` on; `none` where the fuel does not suffice. -/
def countFrom (oldText content : Str) : Nat → Nat → Nat → Option Nat
  | 0, _, _ => none
  | fuel + 1, pos, count =>
      match findFrom oldText content pos with
      | none => some count
      | some pos => countFrom oldText content fuel (pos + oldText.length) (count + 1)

/-- The loop that replaces; `none` where the fuel does not suffice. -/
def replaceFrom (oldText newText : Str) : Nat → Str → Nat → Option Str
  | 0, _, _ => none
  | fuel + 1, newContent, pos =>
      match findFrom oldText newContent pos with
      | none => some newContent
      | some pos =>
          replaceFrom oldText newText fuel
            (InPlace.replace newContent pos oldText.length newText) (pos + newText.length)

def similarFiles (disk : Disk) (filePath : Str) : Str :=
  let parentDir := parentPath filePath
  if disk.existsAt parentDir ∧ disk.isDirectory parentDir then
    match (disk.regularFiles parentDir).take 3 with
    | [] => []
    | suggestions =>
        lit "\nDid you mean: " ++ (lit ", ").intercalate suggestions ++ lit "?"
  else []

def warning (count lineNum : Nat) : Str :=
  lit "Warning: old_text appears " ++ toDecimal count ++ lit " times at line " ++
    toDecimal lineNum ++ lit ". Provide more context to make it unique, or set replace_all=true."

def lineAt (content : Str) (pos : Nat) : Nat := 1 + (content.take pos).count 10

/-- An empty `oldText` makes a new file. -/
def createFile (disk : Disk) (args : Arguments) : Answer × Disk :=
  match disk.get? args.filePath with
  | some .directory => (.thrown, disk)
  | some (.file (_ :: _) _ _) =>
      (.text (lit "Error: Cannot create file " ++ [0xE2, 0x80, 0x94] ++ lit " " ++ args.filePath ++
        lit " already exists and is not empty."), disk)
  | _ =>
      match disk.createDirectories (parentPath args.filePath) with
      | none => (.thrown, disk)
      | some disk =>
          match disk.write args.filePath args.newText with
          | none => (.text (lit "Error: Cannot create file: " ++ args.filePath), disk)
          | some disk => (.text (lit "Successfully created " ++ args.filePath), disk)

def saveContent (disk : Disk) (args : Arguments) (newContent : Str) : Answer × Disk :=
  match disk.write args.filePath newContent with
  | none => (.text (lit "Error: Cannot write to file: " ++ args.filePath), disk)
  | some disk => (.text (lit "Successfully edited " ++ args.filePath), disk)

/-- An edit of the text that was read; `none` where a loop does not end. -/
def editContent (disk : Disk) (args : Arguments) (content : Str) : Option (Answer × Disk) :=
  match findFrom args.oldText content 0 with
  | none =>
      some (.text (lit "Error: old_text not found in " ++ args.filePath ++
        lit ". Copy the exact text from read_file and try again."), disk)
  | some firstMatch => do
      let fuel := content.length + 1
      let count ←
        if args.replaceAll then
          countFrom args.oldText content fuel (firstMatch + args.oldText.length) 1
        else some 1
      if count > 1 ∧ args.replaceAll = false then
        return (.text (warning count (lineAt content firstMatch)), disk)
      let newContent ←
        if args.replaceAll then replaceFrom args.oldText args.newText fuel content 0
        else some (InPlace.replace content firstMatch args.oldText.length args.newText)
      return saveContent disk args newContent

def editFile (disk : Disk) (args : Arguments) : Option (Answer × Disk) :=
  if args.filePath = [] then some (.text (lit "Error: 'path' parameter is required"), disk)
  else if args.oldText = [] ∧ args.newText = [] then
    some (.text (lit "Error: 'old_text' and/or 'new_text' parameter is required"), disk)
  else if args.oldText = [] then some (createFile disk args)
  else if disk.existsAt args.filePath = false then
    some (.text (lit "Error: File not found: " ++ args.filePath ++
      similarFiles disk args.filePath), disk)
  else
    match disk.read args.filePath with
    | none => some (.text (lit "Error: Cannot open file for editing: " ++ args.filePath), disk)
    | some content =>
        if extension args.filePath = lit ".ipynb" then
          some (.text (lit ("Error: This is a Jupyter notebook. " ++
            "Use the notebook_edit tool instead.")), disk)
        else editContent disk args content

/-- `EditFileTool::Invoke`. -/
def invoke (disk : Disk) (input : Str) : Option (Answer × Disk) :=
  editFile disk
    { filePath := parseStringField input (lit "path")
      oldText := parseStringField input (lit "old_text")
      newText := parseStringField input (lit "new_text")
      replaceAll := parseBoolField input (lit "replace_all") false }

/-! ## The occurrences of a text -/

/-- What stands between the occurrences that a search from the front meets. -/
def between (oldText content : Str) : List Str :=
  if _hempty : oldText = [] then [content]
  else
    match _h : indexOf oldText content with
    | none => [content]
    | some pos => content.take pos :: between oldText (content.drop (pos + oldText.length))
termination_by content.length
decreasing_by
  have hle := indexOf_eq_some _h
  have hpos := List.length_pos_of_ne_nil _hempty
  rw [List.length_drop]
  omega

theorem between_none {oldText content : Str} (h : indexOf oldText content = none) :
    between oldText content = [content] := by
  rw [between]
  split
  · rfl
  · split
    · rfl
    · rename_i hsome
      rw [h] at hsome
      cases hsome

theorem between_some {oldText content : Str} {pos : Nat} (hne : oldText ≠ [])
    (h : indexOf oldText content = some pos) :
    between oldText content =
      content.take pos :: between oldText (content.drop (pos + oldText.length)) := by
  rw [between, dif_neg hne]
  split
  · rename_i hnone
    rw [h] at hnone
    cases hnone
  · rename_i hsome
    rw [h] at hsome
    cases hsome
    rfl

theorem between_ne_nil (oldText content : Str) : between oldText content ≠ [] := by
  rw [between]
  split
  · simp
  · split <;> simp

def occurrenceCount (oldText content : Str) : Nat := (between oldText content).length - 1

theorem length_between (oldText content : Str) :
    (between oldText content).length = occurrenceCount oldText content + 1 := by
  have hpos := List.length_pos_of_ne_nil (between_ne_nil oldText content)
  rw [occurrenceCount]
  omega

theorem occurrenceCount_none {oldText content : Str} (h : indexOf oldText content = none) :
    occurrenceCount oldText content = 0 := by
  rw [occurrenceCount, between_none h]
  rfl

theorem occurrenceCount_some {oldText content : Str} {pos : Nat} (hne : oldText ≠ [])
    (h : indexOf oldText content = some pos) :
    occurrenceCount oldText content =
      occurrenceCount oldText (content.drop (pos + oldText.length)) + 1 := by
  rw [← length_between, occurrenceCount, between_some hne h]
  rfl

/-- The finder of the occurrences, each to be replaced by `newText`. -/
def occurrences (oldText newText : Str) : InPlace.Finder UInt8 where
  next rest :=
    if oldText = [] then none
    else (indexOf oldText rest).map fun pos => ⟨pos, oldText.length, newText⟩
  within rest e h := by
    split at h
    · cases h
    · rename_i hne
      obtain ⟨pos, hpos, rfl⟩ := Option.map_eq_some_iff.mp h
      exact ⟨List.length_pos_of_ne_nil hne, indexOf_eq_some hpos⟩

theorem occurrences_next {oldText : Str} (hne : oldText ≠ []) (newText rest : Str) :
    (occurrences oldText newText).next rest =
      (indexOf oldText rest).map fun pos => ⟨pos, oldText.length, newText⟩ :=
  if_neg hne

theorem pass_occurrences {oldText : Str} (hne : oldText ≠ []) (newText content : Str) :
    InPlace.pass (occurrences oldText newText) content =
      newText.intercalate (between oldText content) := by
  induction hlength : content.length using Nat.strong_induction_on generalizing content with
  | _ n ih =>
      subst hlength
      cases hpos : indexOf oldText content with
      | none =>
          rw [between_none hpos, InPlace.pass_none _ (by rw [occurrences_next hne, hpos]; rfl),
            List.intercalate_singleton]
      | some pos =>
          have hle := indexOf_eq_some hpos
          have hlong := List.length_pos_of_ne_nil hne
          have hnext : (occurrences oldText newText).next content =
              some ⟨pos, oldText.length, newText⟩ := by
            rw [occurrences_next hne, hpos]
            rfl
          have hshort : (content.drop (pos + oldText.length)).length < content.length := by
            rw [List.length_drop]
            omega
          rw [between_some hne hpos, InPlace.pass_some _ hnext, ih _ hshort _ rfl,
            List.intercalate_cons_of_ne_nil (between_ne_nil _ _)]

/-- The text is what stands between the occurrences, with the occurrences. -/
theorem intercalate_between {oldText : Str} (hne : oldText ≠ []) (content : Str) :
    oldText.intercalate (between oldText content) = content := by
  induction hlength : content.length using Nat.strong_induction_on generalizing content with
  | _ n ih =>
      subst hlength
      cases hpos : indexOf oldText content with
      | none => rw [between_none hpos, List.intercalate_singleton]
      | some pos =>
          obtain ⟨before, after, hsplit, hbefore⟩ := indexOf_split hpos
          have hlong := List.length_pos_of_ne_nil hne
          have hdrop : content.drop (pos + oldText.length) = after := by
            rw [← List.drop_drop, hsplit, ← hbefore, List.drop_left, List.drop_left]
          have htake : content.take pos = before := by rw [hsplit, ← hbefore, List.take_left]
          have hshort : after.length < content.length := by
            rw [hsplit, List.length_append, List.length_append]
            omega
          rw [between_some hne hpos, hdrop, htake,
            List.intercalate_cons_of_ne_nil (between_ne_nil _ _), ih _ hshort _ rfl, hsplit,
            List.append_assoc]

theorem replaceFrom_eq {oldText : Str} (hne : oldText ≠ []) (newText : Str) (fuel : Nat)
    (newContent : Str) (pos : Nat) :
    replaceFrom oldText newText fuel newContent pos =
      InPlace.editFrom (occurrences oldText newText) fuel newContent pos := by
  induction fuel generalizing newContent pos with
  | zero => rfl
  | succ fuel ih =>
      rw [replaceFrom, InPlace.editFrom, occurrences_next hne, findFrom_eq hne]
      cases indexOf oldText (newContent.drop pos) with
      | none => rfl
      | some offset =>
          simp only [Option.map_some, Nat.add_comm offset pos]
          exact ih _ _

/-- The loop that replaces ends, and does not look at what it has inserted. -/
theorem replaceFrom_zero {oldText : Str} (hne : oldText ≠ []) (newText content : Str) :
    replaceFrom oldText newText (content.length + 1) content 0 =
      some (newText.intercalate (between oldText content)) := by
  rw [replaceFrom_eq hne, InPlace.editFrom_zero _ (Nat.lt_succ_self _), pass_occurrences hne]

theorem countFrom_eq {oldText : Str} (hne : oldText ≠ []) {content : Str} {fuel pos : Nat}
    (h : content.length < fuel + pos) (count : Nat) :
    countFrom oldText content (fuel + 1) pos count =
      some (count + occurrenceCount oldText (content.drop pos)) := by
  induction fuel generalizing pos count with
  | zero =>
      have hnil : content.drop pos = [] := List.drop_eq_nil_of_le (by omega)
      have hnone : indexOf oldText [] = none := by rw [indexOf, if_neg hne]
      rw [countFrom, findFrom_eq hne, hnil, occurrenceCount_none hnone, hnone]
      rfl
  | succ fuel ih =>
      have hlong := List.length_pos_of_ne_nil hne
      rw [countFrom, findFrom_eq hne]
      cases hpos : indexOf oldText (content.drop pos) with
      | none =>
          rw [occurrenceCount_none hpos]
          rfl
      | some offset =>
          have hbehind : offset + pos + oldText.length = pos + (offset + oldText.length) := by omega
          simp only [Option.map_some]
          rw [ih (by omega), occurrenceCount_some hne hpos, List.drop_drop, hbehind,
            Nat.add_right_comm, Nat.add_assoc]

/-- Replacing the only occurrence is replacing all of them. -/
theorem replace_single {oldText content : Str} {pos : Nat} (hne : oldText ≠ [])
    (hpos : indexOf oldText content = some pos) (hcount : occurrenceCount oldText content = 1)
    (newText : Str) :
    InPlace.replace content pos oldText.length newText =
      newText.intercalate (between oldText content) := by
  rw [occurrenceCount_some hne hpos] at hcount
  cases hbehind : indexOf oldText (content.drop (pos + oldText.length)) with
  | none =>
      rw [between_some hne hpos, between_none hbehind, List.intercalate_cons_cons,
        List.intercalate_singleton]
      rfl
  | some next =>
      have hmore := occurrenceCount_some hne hbehind
      omega

/-! ## What an edit leaves -/

/-- The tool comes back, the file holds `text`, and nothing else has changed. -/
def Leaves (disk : Disk) (path text : Str) (outcome : Option (Answer × Disk)) : Prop :=
  ∃ answer disk', outcome = some (answer, disk') ∧ disk'.read path = some text ∧
    ∀ other, other ≠ path → disk'.get? other = disk.get? other

/-- What an edit is for: every occurrence replaced, or the only one; where there are more and
one is meant, the warning with their number and nothing else. -/
def Contract (disk : Disk) (args : Arguments) (content : Str)
    (outcome : Option (Answer × Disk)) : Prop :=
  let count := occurrenceCount args.oldText content
  if args.replaceAll = true ∨ count ≤ 1 then
    Leaves disk args.filePath (args.newText.intercalate (between args.oldText content)) outcome
  else ∃ lineNum, outcome = some (.text (warning count lineNum), disk)

section Existing

variable {disk : Disk} {args : Arguments} {content : Str} {writable : Bool}

theorem read_existing (hfile : disk.get? args.filePath = some (.file content true writable)) :
    disk.read args.filePath = some content := by
  rw [Disk.read, hfile]

theorem editFile_existing (hpath : args.filePath ≠ []) (hold : args.oldText ≠ [])
    (hnotebook : extension args.filePath ≠ lit ".ipynb")
    (hfile : disk.get? args.filePath = some (.file content true writable)) :
    editFile disk args = editContent disk args content := by
  have hexists : disk.existsAt args.filePath = true := by simp [Disk.existsAt, hpath, hfile]
  rw [editFile, if_neg hpath, if_neg (fun h => hold h.1), if_neg hold, if_neg (by simp [hexists]),
    read_existing hfile]
  exact if_neg hnotebook

theorem leaves_saveContent (hfile : disk.get? args.filePath = some (.file content true writable))
    (text : Str) :
    Leaves disk args.filePath text (some (saveContent disk args text)) ↔
      writable = true ∨ text = content := by
  cases writable with
  | true =>
      have hwrite : disk.write args.filePath text =
          some (disk.insert args.filePath (.file text true true)) := by
        rw [Disk.write, hfile]
      refine iff_of_true ⟨_, _, by rw [saveContent, hwrite], ?_, fun other hother => ?_⟩ (.inl rfl)
      · rw [Disk.read, OrderedMap.get?_insert, if_pos rfl]
      · rw [OrderedMap.get?_insert, if_neg hother]
  | false =>
      have hsave : saveContent disk args text =
          (.text (lit "Error: Cannot write to file: " ++ args.filePath), disk) := by
        rw [saveContent, Disk.write, hfile]
      rw [hsave]
      constructor
      · intro h
        obtain ⟨answer, disk', houtcome, hread, -⟩ := h
        simp only [Option.some.injEq, Prod.mk.injEq] at houtcome
        rw [← houtcome.2, read_existing hfile, Option.some.injEq] at hread
        exact .inr hread.symm
      · intro h
        have htext : text = content := by simpa using h
        exact ⟨_, disk, rfl, by rw [read_existing hfile, htext], fun _ _ => rfl⟩

/-- Texts between the same pieces are the same where the pieces are more than one. -/
theorem intercalate_injective {s t : Str} {pieces : List Str} (hpieces : 2 ≤ pieces.length)
    (h : s.intercalate pieces = t.intercalate pieces) : s = t := by
  have hlength : ∀ (u : Str) (first : Str) (rest : List Str),
      (u.intercalate (first :: rest)).length =
        (first :: rest).flatten.length + rest.length * u.length := by
    intro u first rest
    induction rest generalizing first with
    | nil => simp
    | cons second rest ih =>
        rw [List.intercalate_cons_cons, List.length_append, List.length_append, ih]
        simp only [List.flatten_cons, List.length_append, List.length_cons, Nat.succ_mul]
        omega
  match pieces, hpieces with
  | first :: second :: rest, _ =>
      have hsame : s.length = t.length := by
        have hlengths := congrArg List.length h
        rw [hlength, hlength, List.length_cons] at hlengths
        have hmul : (rest.length + 1) * s.length = (rest.length + 1) * t.length := by omega
        exact Nat.eq_of_mul_eq_mul_left (Nat.succ_pos _) hmul
      rw [List.intercalate_cons_cons, List.intercalate_cons_cons, List.append_assoc,
        List.append_assoc] at h
      exact (List.append_inj (List.append_cancel_left h) hsame).1

theorem leaves_replaced (hold : args.oldText ≠ [])
    (hfile : disk.get? args.filePath = some (.file content true writable))
    (hmany : 0 < occurrenceCount args.oldText content) :
    Leaves disk args.filePath (args.newText.intercalate (between args.oldText content))
        (some (saveContent disk args (args.newText.intercalate (between args.oldText content)))) ↔
      writable = true ∨ args.newText = args.oldText := by
  rw [leaves_saveContent hfile]
  refine or_congr_right ⟨fun h => ?_, fun h => ?_⟩
  · exact intercalate_injective (by rw [length_between]; omega) (h.trans (intercalate_between hold content).symm)
  · rw [h, intercalate_between hold]

theorem editContent_none (disk : Disk) (h : indexOf args.oldText content = none) (hold : args.oldText ≠ []) :
    ∃ answer, editContent disk args content = some (answer, disk) := by
  rw [editContent, findFrom_eq hold, List.drop_zero, h]
  exact ⟨_, rfl⟩

theorem editContent_all {pos : Nat} (h : indexOf args.oldText content = some pos)
    (hold : args.oldText ≠ []) (hall : args.replaceAll = true) :
    editContent disk args content = some (saveContent disk args
      (args.newText.intercalate (between args.oldText content))) := by
  have hbehind : content.length < content.length + (pos + args.oldText.length) := by
    have hlong := List.length_pos_of_ne_nil hold
    omega
  have hcount := countFrom_eq hold hbehind 1
  rw [editContent, findFrom_eq hold, List.drop_zero, h]
  simp only [Option.map_some, Nat.add_zero, hall, if_true, hcount, replaceFrom_zero hold,
    Option.bind_eq_bind, Option.bind_some, Bool.true_eq_false, and_false, if_false]
  rfl

/-- Without `replace_all` the first occurrence is replaced, however many there are. -/
theorem editContent_first {pos : Nat} (h : indexOf args.oldText content = some pos)
    (hold : args.oldText ≠ []) (hone : args.replaceAll = false) :
    editContent disk args content = some (saveContent disk args
      (InPlace.replace content pos args.oldText.length args.newText)) := by
  rw [editContent, findFrom_eq hold, List.drop_zero, h]
  simp [hone]

theorem saveContent_answer (text : Str) (count lineNum : Nat) :
    (saveContent disk args text).1 ≠ .text (warning count lineNum) := by
  have hhead : ∀ a b : Str, a.head? ≠ b.head? → Answer.text a ≠ .text b := by
    intro a b hab h
    exact hab (by rw [Answer.text.inj h])
  rw [saveContent]
  split
  · exact hhead _ _ (by simp [warning, lit])
  · exact hhead _ _ (by simp [warning, lit])

end Existing

/-- An edit does what it is for where there is nothing to replace, and where the file can be
written (or the texts are the same) and all occurrences are meant or there is only one. -/
theorem editFile_contract_iff {disk : Disk} {args : Arguments} {content : Str} {writable : Bool}
    (hpath : args.filePath ≠ []) (hold : args.oldText ≠ [])
    (hnotebook : extension args.filePath ≠ lit ".ipynb")
    (hfile : disk.get? args.filePath = some (.file content true writable)) :
    Contract disk args content (editFile disk args) ↔
      occurrenceCount args.oldText content = 0 ∨
        (writable = true ∨ args.newText = args.oldText) ∧
          (args.replaceAll = true ∨ occurrenceCount args.oldText content = 1) := by
  rw [editFile_existing hpath hold hnotebook hfile]
  cases hpos : indexOf args.oldText content with
  | none =>
      have hcount := occurrenceCount_none hpos
      obtain ⟨answer, hanswer⟩ := editContent_none disk hpos hold
      refine iff_of_true ?_ (.inl hcount)
      rw [Contract, if_pos (by omega), hanswer, between_none hpos, List.intercalate_singleton]
      exact ⟨answer, disk, rfl, read_existing hfile, fun _ _ => rfl⟩
  | some pos =>
      have hcount := occurrenceCount_some hold hpos
      have hmany : 0 < occurrenceCount args.oldText content := by omega
      have hreplaced := leaves_replaced hold hfile hmany
      rw [or_iff_right (by omega)]
      by_cases hall : args.replaceAll = true
      · rw [Contract, if_pos (.inl hall), editContent_all hpos hold hall, hreplaced]
        simp [hall]
      · have hone : args.replaceAll = false := by simpa using hall
        rw [editContent_first hpos hold hone]
        by_cases hsingle : occurrenceCount args.oldText content = 1
        · rw [Contract, if_pos (.inr hsingle.le), replace_single hold hpos hsingle, hreplaced]
          simp [hsingle]
        · refine iff_of_false (fun h => ?_) (fun h => by simp [hone, hsingle] at h)
          rw [Contract, if_neg (by rw [hone]; simp; omega)] at h
          obtain ⟨lineNum, hwarning⟩ := h
          exact saveContent_answer _ _ lineNum (congrArg Prod.fst (Option.some.inj hwarning))

def noteDisk (content : String) : Disk :=
  OrderedMap.empty.insert (lit "d/note.txt") (.file (lit content) true true)

def noteEdit (replaceAll : Bool) : Arguments :=
  ⟨lit "d/note.txt", lit "foo", lit "foofoo", replaceAll⟩

theorem editFile_contract_note :
    Contract (noteDisk "foo bar foo") (noteEdit true) (lit "foo bar foo")
      (editFile (noteDisk "foo bar foo") (noteEdit true)) :=
  (editFile_contract_iff (by decide) (by decide) (by decide) (by decide)).mpr
    (.inr ⟨.inl rfl, .inl rfl⟩)

/-- One of two occurrences is replaced, and nothing tells of the other. -/
theorem editFile_ambiguous :
    editFile (noteDisk "foo bar foo") (noteEdit false) =
        some (.text (lit "Successfully edited d/note.txt"), noteDisk "foofoo bar foo") ∧
      ¬ Contract (noteDisk "foo bar foo") (noteEdit false) (lit "foo bar foo")
        (editFile (noteDisk "foo bar foo") (noteEdit false)) := by
  have hedit : editFile (noteDisk "foo bar foo") (noteEdit false) =
      some (.text (lit "Successfully edited d/note.txt"), noteDisk "foofoo bar foo") := rfl
  have hcount : occurrenceCount (lit "foo") (lit "foo bar foo") = 2 := by
    have hfirst : indexOf (lit "foo") (lit "foo bar foo") = some 0 := by decide
    have hsecond : indexOf (lit "foo") (lit " bar foo") = some 5 := by decide
    have hnone : indexOf (lit "foo") [] = none := by decide
    calc occurrenceCount (lit "foo") (lit "foo bar foo")
        = occurrenceCount (lit "foo") (lit " bar foo") + 1 :=
          occurrenceCount_some (by decide) hfirst
      _ = occurrenceCount (lit "foo") [] + 1 + 1 :=
          congrArg (· + 1) (occurrenceCount_some (by decide) hsecond)
      _ = 2 := by rw [occurrenceCount_none hnone]
  refine ⟨hedit, fun h => ?_⟩
  rw [Contract, if_neg (by simp [noteEdit, hcount]), hedit] at h
  obtain ⟨lineNum, hwarning⟩ := h
  have hdisk : noteDisk "foofoo bar foo" = noteDisk "foo bar foo" :=
    (Prod.mk.inj (Option.some.inj hwarning)).2
  have hread := congrArg (Disk.read · (lit "d/note.txt")) hdisk
  revert hread
  decide

end JiuwenCore.Tools.EditFileTool
