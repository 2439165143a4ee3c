import JiuwenCore.Tools.Arguments
import JiuwenCore.Tools.Disk
import JiuwenCore.Tools.FileTree
import Mathlib.Data.List.Sort

/-!
# Listing a directory

`list_dir` lists the entries of a directory, or all below it, up to a number, and sorts what
it has. A recursive listing goes into the directories it leaves out, too.
-/

namespace JiuwenCore.Tools.ListDirTool

def kIgnoreDirs : List Str :=
  [lit ".git", lit "node_modules", lit "__pycache__", lit ".venv", lit "venv", lit "dist",
    lit "build", lit ".tox", lit ".mypy_cache", lit ".pytest_cache", lit ".ruff_cache",
    lit ".coverage", lit "htmlcov"]

def kDefaultMax : Int := 200

/-! ## Arguments -/

def parseStringField (json key : Str) : Str := scanValue escapeWritten (valueOf json key)

/-- A boolean is read without quotes. -/
def parseBoolField (json key : Str) (defaultVal : Bool) : Bool :=
  match valueOf json key with
  | none => defaultVal
  | some value =>
      if value.take 4 = lit "true" then true
      else if value.take 5 = lit "false" then false
      else defaultVal

def parseIntField (json key : Str) (defaultVal : Int) : Int := parseInt json key defaultVal

/-! ## The tool -/

/-- An entry of a listing that is not recursive. -/
def taggedName (found : FoundEntry) : Str :=
  (if isDirectory found then lit "[DIR]  " else lit "[FILE] ") ++ lastName found.1

/-- The listing of the displayed entries, in the order the iterator has them. -/
def listing (dirPath : Str) (maxEntries : Int) (shown : List Str) : Str :=
  let items := (shown.take maxEntries.toNat).insertionSort (· ≤ ·)
  if items = [] ∧ shown = [] then lit "Directory " ++ dirPath ++ lit " is empty"
  else
    (lit "\n").intercalate items ++
      if maxEntries < shown.length then
        lit "\n\n(truncated, showing first " ++ Json.printInt maxEntries ++ lit " of " ++
          toDecimal shown.length ++ lit " entries)"
      else []

/-- What is made of the turns of an iterator. An exception leaves the tool. -/
def answer (dirPath : Str) (maxEntries : Int) (keep : FoundEntry → Bool)
    (show_ : FoundEntry → Str) (steps : List (Option FoundEntry)) : Answer :=
  if steps.all Option.isSome then
    .text (listing dirPath maxEntries (((steps.filterMap id).filter keep).map show_))
  else .thrown

def listRecursive (dirPath : Str) (maxEntries : Int) (d : Directory) : Answer :=
  answer dirPath maxEntries (kept kIgnoreDirs dirPath) display d.steps

def listTop (dirPath : Str) (maxEntries : Int) (d : Directory) : Answer :=
  answer dirPath maxEntries (fun found => lastName found.1 ∉ kIgnoreDirs) taggedName d.topSteps

/-- `ListDirTool::Invoke`. -/
def invoke (tree : FileTree) (input : Str) : Answer :=
  let dirPath := parseStringField input (lit "path")
  if dirPath = [] then .text (lit "Error: 'path' parameter is required")
  else
    let recursive := parseBoolField input (lit "recursive") false
    let maxEntries := parseIntField input (lit "max_entries") kDefaultMax
    match tree dirPath with
    | none => .text (lit "Error: Directory not found: " ++ dirPath)
    | some (.directory d) =>
        if recursive then listRecursive dirPath maxEntries d else listTop dirPath maxEntries d
    | some _ => .text (lit "Error: Not a directory: " ++ dirPath)

/-! ## What a recursive listing shows -/

/-- The entries of a walk that does not go into a directory that is left out, and has none
where the directory itself is left out. -/
def shownBelow (dirPath : Str) (d : Directory) : List Str :=
  if (components dirPath).all fun part => part ∉ kIgnoreDirs then
    ((d.entries.prune fun part => part ∉ kIgnoreDirs).walk []).map display
  else []

theorem listRecursive_of_opens (dirPath : Str) (maxEntries : Int) {d : Directory} (h : d.Opens) :
    listRecursive dirPath maxEntries d =
      .text (listing dirPath maxEntries (shownBelow dirPath d)) := by
  rw [listRecursive, answer, if_pos (d.all_steps_iff.mpr h), Directory.steps_of_opens h,
    List.filterMap_map, Function.id_comp, List.filterMap_some, Directory.walk_kept, shownBelow]
  split
  · rfl
  · rfl

theorem listRecursive_thrown_iff {dirPath : Str} {maxEntries : Int} {d : Directory} :
    listRecursive dirPath maxEntries d = .thrown ↔ ¬ d.Opens := by
  rw [listRecursive, answer, ← d.all_steps_iff]
  split
  · rename_i hall
    simp [hall]
  · rename_i hall
    simp [hall]

/-- A recursive listing throws exactly when a directory below cannot be opened, even one that it
leaves out. Otherwise it lists a walk that does not go into what is left out. -/
theorem listRecursive_eq (dirPath : Str) (maxEntries : Int) (d : Directory) :
    (listRecursive dirPath maxEntries d = .thrown ↔ ¬ d.Opens) ∧
      (d.Opens → listRecursive dirPath maxEntries d =
        .text (listing dirPath maxEntries (shownBelow dirPath d))) :=
  ⟨listRecursive_thrown_iff, listRecursive_of_opens dirPath maxEntries⟩

/-! ## The order of the iterator -/

theorem shownBelow_perm (dirPath : Str) {d d' : Directory} (h : d.Reordered d') :
    (shownBelow dirPath d).Perm (shownBelow dirPath d') := by
  have hkept := h.walk_perm.filter (kept kIgnoreDirs dirPath)
  rw [Directory.walk_kept, Directory.walk_kept] at hkept
  unfold shownBelow
  split
  · rename_i hroot
    rw [if_pos hroot, if_pos hroot] at hkept
    exact hkept.map display
  · exact .refl _

/-- A listing with all entries is in the order of their texts. -/
theorem listing_perm (dirPath : Str) {maxEntries : Int} {shown shown' : List Str}
    (h : shown.Perm shown') (hall : (shown.length : Int) ≤ maxEntries) :
    listing dirPath maxEntries shown = listing dirPath maxEntries shown' := by
  have htake : ∀ l : List Str, (l.length : Int) ≤ maxEntries → l.take maxEntries.toNat = l := by
    intro l hl
    exact List.take_of_length_le (by omega)
  have hlength := h.length_eq
  have hsorted : shown.insertionSort (· ≤ ·) = shown'.insertionSort (· ≤ ·) :=
    List.Perm.eq_of_pairwise' (List.pairwise_insertionSort _ _) (List.pairwise_insertionSort _ _)
      (((List.perm_insertionSort _ _).trans h).trans (List.perm_insertionSort _ _).symm)
  have hnil : shown = [] ↔ shown' = [] := by
    rw [← List.length_eq_zero_iff, hlength, List.length_eq_zero_iff]
  rw [listing, listing, htake shown hall, htake shown' (by omega), hsorted, hlength]
  simp only [hnil]

/-- Where nothing is cut off, the answer does not depend on the order in which the iterator comes
to the entries. -/
theorem listRecursive_reordered (dirPath : Str) {maxEntries : Int} {d d' : Directory}
    (h : d.Reordered d') (hall : ((shownBelow dirPath d).length : Int) ≤ maxEntries) :
    listRecursive dirPath maxEntries d = listRecursive dirPath maxEntries d' := by
  by_cases hopens : d.Opens
  · rw [listRecursive_of_opens dirPath maxEntries hopens,
      listRecursive_of_opens dirPath maxEntries (h.opens_iff.mp hopens),
      listing_perm dirPath (shownBelow_perm dirPath h) hall]
  · have hopens' : ¬ d'.Opens := fun ho => hopens (h.opens_iff.mpr ho)
    rw [listRecursive_thrown_iff.mpr hopens, listRecursive_thrown_iff.mpr hopens']

end JiuwenCore.Tools.ListDirTool
