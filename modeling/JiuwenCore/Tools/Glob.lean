import JiuwenCore.Lib.Pattern
import JiuwenCore.Tools.Arguments
import JiuwenCore.Tools.Disk
import JiuwenCore.Tools.FileTree
import Mathlib.Data.List.Sort

/-!
# Finding files by a pattern

`glob` turns its pattern into a regular expression, which it matches without regard to case
against the path of an entry or against its name, and lists the newest of what it has found.

Of `std::regex` the expressions are modelled that a pattern of plain bytes becomes: anchors
around literal bytes, escaped dots, any byte, and runs of any bytes. What another expression
matches is left open.
-/

namespace JiuwenCore.Tools.GlobTool

open Pattern (Atom accepts Matches)

def kDefaultHeadLimit : Int := 250

def kIgnoreDirs : List Str :=
  [lit ".git", lit "node_modules", lit "__pycache__", lit ".venv", lit "venv", lit "dist",
    lit "build", lit ".tox", lit ".mypy_cache", lit ".pytest_cache"]

def parseStringField (json key : Str) : Str := scanValue escapeWritten (valueOf json key)

def parseIntField (json key : Str) (defaultVal : Int) : Int := parseInt json key defaultVal

/-! ## Regular expressions -/

/-- The bytes that stand for something else in an expression. -/
def isSpecial (c : UInt8) : Bool :=
  c ∈ [94, 36, 92, 46, 42, 43, 63, 40, 41, 91, 93, 123, 125, 124]

def toLower (c : UInt8) : UInt8 := if 65 ≤ c ∧ c ≤ 90 then c + 32 else c

/-- The byte `c`, in either case. -/
def sameLetter (c d : UInt8) : Bool := toLower c = toLower d

/-- What `.` stands for. -/
def anyByte (c : UInt8) : Bool := c ≠ 10 ∧ c ≠ 13

/-- The expression between the anchors, if it is of the kind that is modelled. -/
@[grind =] def readAtoms : Str → Option (List (Atom UInt8))
  | [] => none
  | [36] => some []
  | 92 :: 46 :: rest => (readAtoms rest).map (Atom.one (sameLetter 46) :: ·)
  | 46 :: 42 :: rest => (readAtoms rest).map (Atom.many anyByte :: ·)
  | 46 :: rest => (readAtoms rest).map (Atom.one anyByte :: ·)
  | c :: rest =>
      if isSpecial c then none else (readAtoms rest).map (Atom.one (sameLetter c) :: ·)

/-- `regex_match` of an expression that ignores case, `false` where `std::regex` throws. -/
def regexMatch (other : Str → Str → Bool) (expression s : Str) : Bool :=
  match expression with
  | 94 :: rest =>
      match readAtoms rest with
      | some atoms => accepts atoms s
      | none => other expression s
  | _ => other expression s

/-! ## The tool -/

/-- The expression a byte of the pattern becomes. -/
def globByte (c : UInt8) : Str :=
  if c = 42 then lit ".*" else if c = 63 then lit "." else if c = 46 then lit "\\." else [c]

def regexPattern (pattern : Str) : Str := [94] ++ pattern.flatMap globByte ++ [36]

/-- Whether the pattern is for whole paths. -/
def forPaths (pattern : Str) : Bool := 47 ∈ pattern || (indexOf (lit "**") pattern).isSome

def globMatch (other : Str → Str → Bool) (relPath fileName pattern : Str) : Bool :=
  regexMatch other (regexPattern pattern) (if forPaths pattern then relPath else fileName)

structure Options where
  pattern : Str
  headLimit : Nat
  includeFiles : Bool
  includeDirs : Bool

def Options.ofText (pattern entryType : Str) (headLimit : Int) : Options where
  pattern := pattern
  headLimit := (if headLimit ≤ 0 then kDefaultHeadLimit else headLimit).toNat
  includeFiles := entryType = lit "files" ∨ entryType = lit "both"
  includeDirs := entryType = lit "dirs" ∨ entryType = lit "both"

/-- The time of an entry of a kind that is asked for. -/
def mtimeOf (o : Options) (found : FoundEntry) : Option Int :=
  match found.2 with
  | .inl (.regular file) => if o.includeFiles then some file.mtime else none
  | .inl .special => none
  | .inr data => if o.includeDirs then some data.mtime else none

/-- An entry that matches, as it is displayed, and its time. -/
def matched (other : Str → Str → Bool) (o : Options) (searchPath : Str) (found : FoundEntry) :
    Option (Str × Int) :=
  if kept kIgnoreDirs searchPath found then
    (mtimeOf o found).bind fun mtime =>
      if globMatch other (relativePath found.1) (lastName found.1) o.pattern then
        some (display found, mtime)
      else none
  else none

/-- The newest first, and by name where the times are the same. -/
def Newer (a b : Str × Int) : Prop := b.2 < a.2 ∨ a.2 = b.2 ∧ a.1 ≤ b.1

instance (a b : Str × Int) : Decidable (Newer a b) := inferInstanceAs (Decidable (_ ∨ _))

/-- The answer for what was found, in the order of the iterator. -/
def answer (o : Options) (searchPath : Str) (found : List (Str × Int)) : Str :=
  if found = [] then
    lit "No paths matched pattern '" ++ o.pattern ++ lit "' in " ++ searchPath
  else
    (lit "\n").intercalate (((found.insertionSort Newer).take o.headLimit).map (·.1)) ++
      if o.headLimit < found.length then
        lit "\n\n(pagination: limit=" ++ toDecimal o.headLimit ++ lit ", offset=0)"
      else []

/-- The search of a directory; `what` is the text of the exception of an iterator. -/
def searchDirectory (other : Str → Str → Bool) (what : Str) (o : Options) (searchPath : Str)
    (d : Directory) : Str :=
  if d.steps.all Option.isSome then
    answer o searchPath ((d.steps.filterMap id).filterMap (matched other o searchPath))
  else lit "Error finding files: " ++ what

/-- `GlobTool::Invoke`. -/
def invoke (other : Str → Str → Bool) (what : Str) (tree : FileTree) (input : Str) : Str :=
  let pattern := parseStringField input (lit "pattern")
  if pattern = [] then lit "Error: 'pattern' parameter is required"
  else
    let searchPath :=
      let path := parseStringField input (lit "path")
      if path = [] then lit "." else path
    let headLimit := parseIntField input (lit "head_limit") kDefaultHeadLimit
    let entryType :=
      let type := parseStringField input (lit "entry_type")
      if type = [] then lit "files" else type
    match tree searchPath with
    | none => lit "Error: Path not found: " ++ searchPath
    | some (.directory d) =>
        searchDirectory other what (.ofText pattern entryType headLimit) searchPath d
    | some _ => lit "Error: Not a directory: " ++ searchPath

/-! ## What a pattern matches -/

/-- A pattern without the bytes that get a meaning of their own in the expression. -/
def Plain (pattern : Str) : Prop := ∀ c ∈ pattern, isSpecial c = true → c = 42 ∨ c = 63 ∨ c = 46

instance (pattern : Str) : Decidable (Plain pattern) :=
  inferInstanceAs (Decidable (∀ c ∈ pattern, _))

/-- A star stands for a run of any bytes, slashes among them, and a question mark for one. -/
def wildcard (c : UInt8) : Atom UInt8 :=
  if c = 42 then .many anyByte else if c = 63 then .one anyByte else .one (sameLetter c)

/-- An expression that a pattern becomes does not go on with a star of its own. -/
theorem head_pattern (pattern : Str) (tail : Str) :
    pattern.flatMap globByte ++ [36] ≠ 42 :: tail := by
  cases pattern with
  | nil => simp
  | cons c rest =>
      rw [List.flatMap_cons, globByte]
      split
      · simp [lit]
      · split
        · simp [lit]
        · split
          · simp [lit]
          · rename_i hstar _ _
            simp [hstar]

theorem readAtoms_plain {c : UInt8} (h : isSpecial c = false) (text : Str) :
    readAtoms (c :: text) = (readAtoms text).map (Atom.one (sameLetter c) :: ·) := by
  have hne : c ≠ 36 ∧ c ≠ 92 ∧ c ≠ 46 := by
    refine ⟨?_, ?_, ?_⟩
    all_goals
      rintro rfl
      revert h
      decide
  rw [readAtoms, if_neg (by simp [h])]
  · exact fun hc => absurd hc hne.1
  · exact fun _ hc => absurd hc hne.2.1
  · exact fun _ hc => absurd hc hne.2.2
  · exact fun hc => hne.2.2 hc

theorem readAtoms_any {text : Str} (h : ∀ tail, text ≠ 42 :: tail) :
    readAtoms (46 :: text) = (readAtoms text).map (Atom.one anyByte :: ·) := by
  rw [readAtoms]
  exact h

/-- The expression of a plain pattern is read as the pattern is meant. -/
theorem readAtoms_pattern {pattern : Str} (h : Plain pattern) :
    readAtoms (pattern.flatMap globByte ++ [36]) = some (pattern.map wildcard) := by
  induction pattern with
  | nil => rfl
  | cons c rest ih =>
      obtain ⟨hc, hrest⟩ := List.forall_mem_cons.mp h
      have hread := ih hrest
      rw [List.flatMap_cons, List.map_cons, List.append_assoc, wildcard, globByte]
      by_cases hstar : c = 42
      · rw [if_pos hstar, if_pos hstar]
        change readAtoms (46 :: 42 :: (rest.flatMap globByte ++ [36])) = _
        rw [readAtoms, hread, Option.map_some]
      · rw [if_neg hstar, if_neg hstar]
        by_cases hmark : c = 63
        · rw [if_pos hmark, if_pos hmark]
          change readAtoms (46 :: (rest.flatMap globByte ++ [36])) = _
          rw [readAtoms_any (head_pattern rest), hread, Option.map_some]
        · rw [if_neg hmark, if_neg hmark]
          by_cases hdot : c = 46
          · rw [if_pos hdot, hdot]
            change readAtoms (92 :: 46 :: (rest.flatMap globByte ++ [36])) = _
            rw [readAtoms, hread, Option.map_some]
          · have hplain : isSpecial c = false := by
              rw [Bool.eq_false_iff]
              intro hspecial
              rcases hc hspecial with heq | heq | heq
              · exact hstar heq
              · exact hmark heq
              · exact hdot heq
            rw [if_neg hdot, List.singleton_append, readAtoms_plain hplain, hread,
              Option.map_some]

/-- A plain pattern matches what it is meant to match, in either case: whole paths if it has a
slash or two stars in a row, and names otherwise. -/
theorem globMatch_iff (other : Str → Str → Bool) {pattern : Str} (h : Plain pattern)
    (relPath fileName : Str) :
    globMatch other relPath fileName pattern = true ↔
      Matches (pattern.map wildcard) (if forPaths pattern then relPath else fileName) := by
  unfold globMatch regexMatch regexPattern
  rw [List.append_assoc, List.singleton_append]
  simp only [readAtoms_pattern h, Pattern.accepts_iff]

theorem globMatch_nested :
    globMatch (fun _ _ => false) (lit "src/a/b.cpp") (lit "b.cpp") (lit "src/*.CPP") = true ↔
      Matches ((lit "src/*.CPP").map wildcard) (lit "src/a/b.cpp") :=
  globMatch_iff _ (by decide) _ _

example : globMatch (fun _ _ => false) (lit "src/a/b.cpp") (lit "b.cpp") (lit "src/*.CPP") =
    true := by decide

/-! ## The order of the iterator -/

theorem newer_total (a b : Str × Int) : Newer a b ∨ Newer b a := by
  rcases lt_trichotomy a.2 b.2 with hlt | heq | hgt
  · exact Or.inr (Or.inl hlt)
  · rcases le_total a.1 b.1 with hle | hle
    · exact Or.inl (Or.inr ⟨heq, hle⟩)
    · exact Or.inr (Or.inr ⟨heq.symm, hle⟩)
  · exact Or.inl (Or.inl hgt)

theorem newer_trans {a b c : Str × Int} (h : Newer a b) (h' : Newer b c) : Newer a c := by
  rcases h with hlt | ⟨heq, hle⟩
  · rcases h' with hlt' | ⟨heq', -⟩
    · exact Or.inl (lt_trans hlt' hlt)
    · exact Or.inl (heq' ▸ hlt)
  · rcases h' with hlt' | ⟨heq', hle'⟩
    · exact Or.inl (heq ▸ hlt')
    · exact Or.inr ⟨heq.trans heq', hle.trans hle'⟩

theorem newer_antisymm {a b : Str × Int} (h : Newer a b) (h' : Newer b a) : a = b := by
  rcases h with hlt | ⟨heq, hle⟩
  · rcases h' with hlt' | ⟨heq', -⟩
    · exact absurd hlt' (lt_asymm hlt)
    · exact absurd hlt (heq' ▸ lt_irrefl _)
  · rcases h' with hlt' | ⟨-, hle'⟩
    · exact absurd hlt' (heq ▸ lt_irrefl _)
    · exact Prod.ext (le_antisymm hle hle') heq

instance : Std.Total Newer := ⟨newer_total⟩

instance : IsTrans (Str × Int) Newer := ⟨fun _ _ _ => newer_trans⟩

instance : Std.Antisymm Newer := ⟨fun _ _ => newer_antisymm⟩

/-- The answer is the same for every order of what was found. -/
theorem answer_perm (o : Options) (searchPath : Str) {found found' : List (Str × Int)}
    (h : found.Perm found') : answer o searchPath found = answer o searchPath found' := by
  have hsorted : found.insertionSort Newer = found'.insertionSort Newer :=
    List.Perm.eq_of_pairwise' (List.pairwise_insertionSort _ _) (List.pairwise_insertionSort _ _)
      (((List.perm_insertionSort _ _).trans h).trans (List.perm_insertionSort _ _).symm)
  have hnil : found = [] ↔ found' = [] := by
    rw [← List.length_eq_zero_iff, h.length_eq, List.length_eq_zero_iff]
  rw [answer, answer, hsorted, h.length_eq]
  simp only [hnil]

/-- The answer of a search does not depend on the order in which the iterator comes to the entries
of each directory, however many of them the limit leaves out. -/
theorem searchDirectory_reordered (other : Str → Str → Bool) (what : Str) (o : Options)
    (searchPath : Str) {d d' : Directory} (h : d.Reordered d') :
    searchDirectory other what o searchPath d = searchDirectory other what o searchPath d' := by
  unfold searchDirectory
  by_cases hopens : d.Opens
  · have hopens' := h.opens_iff.mp hopens
    rw [if_pos (d.all_steps_iff.mpr hopens), if_pos (d'.all_steps_iff.mpr hopens'),
      Directory.steps_of_opens hopens, Directory.steps_of_opens hopens', List.filterMap_map,
      List.filterMap_map, Function.id_comp, List.filterMap_some, List.filterMap_some]
    exact answer_perm o searchPath (h.walk_perm.filterMap _)
  · have hopens' : ¬ d'.Opens := fun hopens' => hopens (h.opens_iff.mpr hopens')
    rw [if_neg fun hall => hopens (d.all_steps_iff.mp hall),
      if_neg fun hall => hopens' (d'.all_steps_iff.mp hall)]

/-- Two files of one directory. -/
def demoFiles (first second : Forest.Item Str Leaf DirData) : Forest Str Leaf DirData :=
  first.onto (second.onto .nil)

def oldFile : Forest.Item Str Leaf DirData := .leaf (lit "old.txt") (.regular { content := [] })

def newFile : Forest.Item Str Leaf DirData :=
  .leaf (lit "new.txt") (.regular { content := [], mtime := 1 })

theorem demoFiles_plain :
    (demoFiles oldFile newFile).Distinct ∧ (demoFiles newFile oldFile).Distinct ∧
      Session.PlainName (lit "old.txt") ∧ Session.PlainName (lit "new.txt") :=
  ⟨⟨by decide, by decide, trivial⟩, ⟨by decide, by decide, trivial⟩,
    ⟨by decide, by decide, by decide, by decide⟩, ⟨by decide, by decide, by decide, by decide⟩⟩

def oldFirst : Directory where
  entries := demoFiles oldFile newFile
  distinct := demoFiles_plain.1
  plain := ⟨demoFiles_plain.2.2.1, demoFiles_plain.2.2.2, trivial⟩

def newFirst : Directory where
  entries := demoFiles newFile oldFile
  distinct := demoFiles_plain.2.1
  plain := ⟨demoFiles_plain.2.2.2, demoFiles_plain.2.2.1, trivial⟩

def newestText : Options := .ofText (lit "*.txt") (lit "files") 1

theorem searchDirectory_swapped :
    searchDirectory (fun _ _ => false) [] newestText (lit ".") oldFirst =
      searchDirectory (fun _ _ => false) [] newestText (lit ".") newFirst :=
  searchDirectory_reordered _ _ _ _ ⟨rfl, .swap oldFile newFile .nil⟩

example : searchDirectory (fun _ _ => false) [] newestText (lit ".") oldFirst =
    lit "new.txt\n\n(pagination: limit=1, offset=0)" := by decide +kernel

end JiuwenCore.Tools.GlobTool
