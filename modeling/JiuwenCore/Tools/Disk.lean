import JiuwenCore.Config.AgentConfig

/-!
# The files the tools work on

A path is the text it is written as. The tools give one text to `std::filesystem` and to the
streams, so two spellings of one place are two places here.
-/

namespace JiuwenCore.Tools

open Config (StrMap)

inductive Entry
  | file (content : Str) (readable writable : Bool)
  | directory
  deriving DecidableEq, Repr

/-- What stands under each path. -/
abbrev Disk := StrMap Entry

/-- What a tool comes back with: its text, or an exception that leaves `Invoke`. -/
inductive Answer
  | text (s : Str)
  | thrown
  deriving DecidableEq, Repr

/-! ## Paths -/

/-- `path::parent_path`. -/
def parentPath (path : Str) : Str :=
  match path.reverse.dropWhile (· ≠ 47) with
  | [] => []
  | slashed =>
      match slashed.dropWhile (· = 47) with
      | [] => [47]
      | front => front.reverse

def fileName (path : Str) : Str := (path.reverse.takeWhile (· ≠ 47)).reverse

/-- `path::extension`; a name that only starts with a dot has none. -/
def extension (path : Str) : Str :=
  let name := fileName path
  let suffix := (name.reverse.takeWhile (· ≠ 46)).reverse
  if name = lit ".." ∨ name.length ≤ suffix.length + 1 then [] else 46 :: suffix

example : parentPath (lit "a/b.txt") = lit "a" ∧ parentPath (lit "/b") = lit "/" := by decide
example : extension (lit "d.x/a.ipynb") = lit ".ipynb" ∧ extension (lit "d/.ipynb") = [] := by decide

/-- The path and the directories above it, the outermost first. -/
def withParents (path : Str) : List Str :=
  (List.range path.length).filterMap
    (fun k => if 0 < k ∧ path[k]? = some 47 then some (path.take k) else none) ++ [path]

namespace Disk

/-! ## Operations -/

/-- `fs::exists`. The empty path names nothing. -/
def existsAt (disk : Disk) (path : Str) : Bool := path ≠ [] ∧ (disk.get? path).isSome

def isDirectory (disk : Disk) (path : Str) : Bool := disk.get? path = some .directory

/-- The names of the regular files of a directory. -/
def regularFiles (disk : Disk) (path : Str) : List Str :=
  disk.entries.filterMap fun entry =>
    match entry.2 with
    | .file _ _ _ => if parentPath entry.1 = path then some (fileName entry.1) else none
    | .directory => none

/-- What an input stream reads, where it opens. A directory opens and has nothing to read. -/
def read (disk : Disk) (path : Str) : Option Str :=
  match disk.get? path with
  | some (.file content true _) => some content
  | some (.file _ false _) => none
  | some .directory => some []
  | none => none

/-- A file written anew, where it can be opened for it. -/
def write (disk : Disk) (path text : Str) : Option Disk :=
  match disk.get? path with
  | some (.file _ readable true) => some (disk.insert path (.file text readable true))
  | some (.file _ _ false) => none
  | some .directory => none
  | none =>
      if parentPath path = [] ∨ disk.isDirectory (parentPath path) then
        some (disk.insert path (.file text true true))
      else none

/-- `create_directories`; it throws for the empty path and where a file is in the way. -/
def createDirectories (disk : Disk) (path : Str) : Option Disk :=
  if path = [] then none
  else
    (withParents path).foldlM (fun disk path =>
      match disk.get? path with
      | some .directory => some disk
      | some (.file _ _ _) => none
      | none => some (disk.insert path .directory)) disk

/-! ## What they leave -/

/-- The text of a file, whoever may read it. -/
def contentOf (disk : Disk) (path : Str) : Option Str :=
  match disk.get? path with
  | some (.file content _ _) => some content
  | _ => none

theorem contentOf_insert_other (disk : Disk) {path other : Str} (h : other ≠ path)
    (entry : Entry) : contentOf (disk.insert path entry) other = disk.contentOf other := by
  rw [contentOf, OrderedMap.get?_insert, if_neg h]
  rfl

/-- A directory takes no file's place. -/
theorem createDirectories_contentOf {disk disk' : Disk} {path : Str}
    (h : disk.createDirectories path = some disk') (other : Str) :
    disk'.contentOf other = disk.contentOf other := by
  unfold createDirectories at h
  split at h
  · cases h
  · generalize withParents path = paths at h
    induction paths generalizing disk with
    | nil => cases h; rfl
    | cons path paths ih =>
        rw [List.foldlM_cons] at h
        obtain ⟨next, hnext, hrest⟩ := Option.bind_eq_some_iff.mp h
        rw [ih hrest]
        split at hnext
        · cases hnext
          rfl
        · cases hnext
        · rename_i hnone
          cases hnext
          by_cases hother : other = path
          · rw [hother, contentOf, contentOf, OrderedMap.get?_insert, if_pos rfl, hnone]
          · exact contentOf_insert_other disk hother _

theorem write_contentOf {disk disk' : Disk} {path text : Str}
    (h : disk.write path text = some disk') : disk'.contentOf path = some text := by
  unfold write at h
  split at h
  · cases h
    rw [contentOf, OrderedMap.get?_insert, if_pos rfl]
  · cases h
  · cases h
  · split at h
    · cases h
      rw [contentOf, OrderedMap.get?_insert, if_pos rfl]
    · cases h

theorem write_contentOf_other {disk disk' : Disk} {path text other : Str}
    (h : disk.write path text = some disk') (hother : other ≠ path) :
    disk'.contentOf other = disk.contentOf other := by
  unfold write at h
  split at h
  · cases h
    exact contentOf_insert_other disk hother _
  · cases h
  · cases h
  · split at h
    · cases h
      exact contentOf_insert_other disk hother _
    · cases h

/-- Whether a file can be written does not depend on the text. -/
theorem write_isSome (disk : Disk) (path s t : Str) :
    (disk.write path s).isSome = (disk.write path t).isSome := by
  unfold write
  split
  · rfl
  · rfl
  · rfl
  · split <;> rfl

end Disk

end JiuwenCore.Tools
