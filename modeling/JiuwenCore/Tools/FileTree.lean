import JiuwenCore.Config.AgentConfig
import JiuwenCore.Lib.Forest
import JiuwenCore.Session.Paths

/-!
# The directories the searching tools walk

`list_dir`, `glob` and `grep` go through a directory with an iterator of `std::filesystem`.
The order in which it comes to the entries of a directory is not specified, and it throws at
a directory that cannot be opened. Symbolic links are left out.
-/

namespace JiuwenCore.Tools

open Session (PlainName)

structure SourceFile where
  content : Str
  readable : Bool := true
  /-- `last_write_time` as the tools compare it. -/
  mtime : Int := 0
  deriving DecidableEq, Repr

inductive Leaf where
  | regular (file : SourceFile)
  | special
  deriving DecidableEq, Repr

structure DirData where
  opens : Bool := true
  mtime : Int := 0
  deriving DecidableEq, Repr

/-- An entry, with its path from the directory that is walked. -/
abbrev FoundEntry := Forest.Found Str Leaf DirData

structure Directory where
  data : DirData := {}
  entries : Forest Str Leaf DirData
  distinct : entries.Distinct
  plain : entries.AllNames PlainName

inductive Place where
  | file (file : SourceFile)
  | directory (dir : Directory)
  | special

/-- What a path leads to. -/
abbrev FileTree := Str → Option Place

/-! ## Paths -/

/-- The components of a path; the root and a doubled slash show as empty ones. -/
def components (path : Str) : List Str := path.splitOn 47

/-- `fs::relative` of an entry, as a generic string. -/
def relativePath (path : List Str) : Str := [47].intercalate path

/-- `filename` of an entry. -/
def lastName (path : List Str) : Str := path.getLast?.getD []

def isDirectory (found : FoundEntry) : Bool := found.2.isRight

/-- An entry in a listing. -/
def display (found : FoundEntry) : Str :=
  relativePath found.1 ++ if isDirectory found then [47] else []

/-- No component of the path is to be skipped. The components of the directory that is walked
are tested with those below it. -/
def kept (ignoreDirs : List Str) (root : Str) (found : FoundEntry) : Bool :=
  (components root ++ found.1).all fun part => part ∉ ignoreDirs

namespace Directory

/-- The turns of a `recursive_directory_iterator`; at `none` it throws. -/
def steps (d : Directory) : List (Option FoundEntry) :=
  if d.data.opens then d.entries.steps DirData.opens [] else [none]

/-- The turns of a `directory_iterator`. -/
def topSteps (d : Directory) : List (Option FoundEntry) :=
  if d.data.opens then d.entries.top.map some else [none]

/-- Every directory can be opened, this one and those below it. -/
def Opens (d : Directory) : Prop := d.data.opens = true ∧ d.entries.Open DirData.opens

def walk (d : Directory) : List FoundEntry := d.entries.walk []

/-- The same entries, in another order. -/
def Reordered (d d' : Directory) : Prop :=
  d.data = d'.data ∧ Forest.Shuffled d.entries d'.entries

theorem steps_of_opens {d : Directory} (h : d.Opens) : d.steps = d.walk.map some := by
  rw [steps, if_pos h.1, Forest.steps_of_open h.2, walk]

/-- What the iterator comes to before it throws is the beginning of the walk. -/
theorem steps_cases (d : Directory) : d.steps = d.walk.map some ∨
    ∃ before rest, d.steps = before.map some ++ none :: rest ∧ before <+: d.walk := by
  unfold steps
  split
  · exact Forest.steps_cases DirData.opens d.entries []
  · exact Or.inr ⟨[], [], rfl, List.nil_prefix⟩

/-- The iterator throws exactly when a directory cannot be opened. -/
theorem all_steps_iff (d : Directory) : d.steps.all Option.isSome = true ↔ d.Opens := by
  have hnone : ∀ steps : List (Option FoundEntry),
      steps.all Option.isSome = true ↔ none ∉ steps := by
    intro steps
    rw [List.all_eq_true]
    constructor
    · intro hall hmem
      cases hall none hmem
    · intro hmem turn hturn
      cases turn with
      | none => exact absurd hturn hmem
      | some found => rfl
  rw [hnone]
  unfold steps Opens
  by_cases hroot : d.data.opens = true
  · rw [if_pos hroot, Forest.none_mem_steps_iff]
    simp [hroot]
  · simp [hroot]

theorem Reordered.walk_perm {d d' : Directory} (h : d.Reordered d') : d.walk.Perm d'.walk :=
  h.2.walk []

theorem Reordered.opens_iff {d d' : Directory} (h : d.Reordered d') : d.Opens ↔ d'.Opens := by
  unfold Opens
  rw [h.1, h.2.open_iff]

theorem walk_plain (d : Directory) {found : FoundEntry} (h : found ∈ d.walk) :
    found.1 ≠ [] ∧ ∀ name ∈ found.1, PlainName name := by
  have hnames : ∀ name ∈ found.1, PlainName name :=
    Forest.mem_walk_names d.plain (by simp) h
  obtain ⟨name, -, hunder⟩ := Forest.walk_under h
  refine ⟨?_, hnames⟩
  rintro hnil
  rw [hnil] at hunder
  have hlength := hunder.length_le
  simp at hlength

/-- The walk under the test of the paths is a walk that does not go into what is ignored. -/
theorem walk_kept (d : Directory) (ignoreDirs : List Str) (root : Str) :
    d.walk.filter (kept ignoreDirs root) =
      if (components root).all fun part => part ∉ ignoreDirs then
        (d.entries.prune fun part => part ∉ ignoreDirs).walk []
      else [] := by
  unfold kept
  split
  · rename_i hroot
    rw [walk, ← Forest.walk_prune List.all_nil d.entries]
    simp only [List.all_append, hroot, Bool.true_and]
  · rename_i hroot
    rw [List.filter_eq_nil_iff]
    intro found _
    rw [List.all_append, Bool.eq_false_iff.mpr hroot, Bool.false_and]
    exact Bool.false_ne_true

end Directory

/-! ## Different entries look different -/

theorem relativePath_inj {p q : List Str} (hp : p ≠ []) (hq : q ≠ [])
    (hp' : ∀ name ∈ p, PlainName name) (hq' : ∀ name ∈ q, PlainName name)
    (h : relativePath p = relativePath q) : p = q := by
  have hsplit : ∀ r : List Str, r ≠ [] → (∀ name ∈ r, PlainName name) →
      (relativePath r).splitOn 47 = r := fun r hr hplain =>
    List.splitOn_intercalate 47 (fun name hname => (hplain name hname).no_slash) hr
  rw [← hsplit p hp hp', h, hsplit q hq hq']

end JiuwenCore.Tools
