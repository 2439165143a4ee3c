import JiuwenCore.Lib.Fitting
import JiuwenCore.Lib.LineFeed
import JiuwenCore.Tools.Arguments
import JiuwenCore.Tools.Disk
import JiuwenCore.Tools.FileTree

/-!
# Searching files

`grep` looks for a regular expression in the lines of a file, or of the files below a
directory. It answers with the files that match, with numbers of matching lines, or with the
lines and what stands around them, and ends early when the answer is long enough.

The regular expression is a test of lines.
-/

namespace JiuwenCore.Tools.GrepTool

open LineFeed (getLines)
open Config (StrMap)

def kDefaultHeadLimit : Int := 250

def kMaxResultChars : Nat := 128000

def kMaxFileBytes : Nat := 2000000

def kIgnoreDirs : List Str :=
  [lit ".git", lit "node_modules", lit "__pycache__", lit ".venv", lit "venv", lit "dist",
    lit "build", lit ".tox", lit ".mypy_cache", lit ".pytest_cache"]

/-! ## Which files are searched -/

def nonText (c : UInt8) : Bool := (c < 9 ∨ 13 < c ∧ c < 32) ∧ c ≠ 27

/-- `IsBinary`. The quotient of two numbers up to 4096 is above the `double` 0.2 exactly when it
is above a fifth. -/
def isBinary (content : Str) : Bool :=
  let sample := content.take 4096
  if sample = [] then false
  else if 0 ∈ sample then true
  else sample.length < 5 * sample.countP nonText

/-- `GlobFilter`, which knows patterns of the form `*.ext` only. -/
def globFilter (fileName pattern : Str) : Bool :=
  match pattern with
  | 42 :: 46 :: ext => (46 :: ext).isSuffixOf fileName
  | _ => true

/-- The options of a search. Every other text for the mode asks for the content. -/
inductive OutputMode where
  | filesWithMatches | count | content
  deriving DecidableEq, Repr

def OutputMode.ofText (outputMode : Str) : OutputMode :=
  if outputMode = lit "files_with_matches" then filesWithMatches
  else if outputMode = lit "count" then count
  else content

structure Options where
  mode : OutputMode
  headLimit : Nat
  contextBefore : Int
  contextAfter : Int
  globFilter : Str
  re : Str → Bool

/-! ## Blocks -/

/-- The first line of the context, which is an `int`. -/
def startLine (o : Options) (idx : Nat) : Nat := (max (idx - o.contextBefore) 0).toNat

/-- The end of the context, which is computed as a `size_t`. -/
def endLine (o : Options) (idx total : Nat) : Nat :=
  min ((idx + o.contextAfter + 1) % 2 ^ 64).toNat total

def blockLine (idx l : Nat) (line : Str) : Str :=
  lit "\n" ++ (if l = idx then lit "> " else lit "  ") ++ toDecimal (l + 1) ++ lit "| " ++ line

/-- The lines of a file that are in the context of one, with their indices. -/
def contextLines (o : Options) (lines : List Str) (idx : Nat) : List (Str × Nat) :=
  (lines.zipIdx.take (endLine o idx lines.length)).drop (startLine o idx)

def block (o : Options) (displayPath : Str) (lines : List Str) (idx : Nat) : Str :=
  displayPath ++ lit ":" ++ toDecimal (idx + 1) ++
    (contextLines o lines idx).flatMap fun entry => blockLine idx entry.2 entry.1

/-! ## The search -/

structure Search where
  matchingFiles : List Str := []
  blocks : List Str := []
  counts : StrMap Nat := OrderedMap.empty
  resultChars : Nat := 0
  truncated : Bool := false
  skippedBinary : Nat := 0
  skippedLarge : Nat := 0

namespace Search

def addFile (displayPath : Str) (s : Search) : Search :=
  if displayPath ∈ s.matchingFiles then s
  else { s with matchingFiles := s.matchingFiles ++ [displayPath] }

def addCount (displayPath : Str) (s : Search) : Search :=
  { s with counts := s.counts.update displayPath 0 (· + 1) }

def addBlock (o : Options) (block : Str) (s : Search) : Search :=
  if o.headLimit ≤ s.blocks.length ∨ kMaxResultChars < s.resultChars + block.length then
    { s with truncated := true }
  else
    { s with
      blocks := s.blocks ++ [block]
      resultChars := s.resultChars + block.length }

end Search

/-- The loop of `ProcessFile` over the lines from `idx` on. -/
def searchLines (o : Options) (displayPath : Str) (lines : List Str) :
    Nat → List Str → Search → Search
  | _, [], s => s
  | idx, line :: rest, s =>
      if o.re line = false then searchLines o displayPath lines (idx + 1) rest s
      else
        match o.mode with
        | .count => searchLines o displayPath lines (idx + 1) rest (s.addCount displayPath)
        | .filesWithMatches => s.addFile displayPath
        | .content =>
            let s := s.addBlock o (block o displayPath lines idx)
            if s.truncated then s else searchLines o displayPath lines (idx + 1) rest s

def processFile (o : Options) (displayPath : Str) (file : SourceFile) (s : Search) : Search :=
  if kMaxFileBytes < file.content.length then { s with skippedLarge := s.skippedLarge + 1 }
  else if file.readable = false ∨ isBinary file.content then
    { s with skippedBinary := s.skippedBinary + 1 }
  else if file.content = [] then s
  else
    let lines := getLines 10 file.content
    let s := searchLines o displayPath lines 0 lines s
    if o.mode ≠ .content ∧ lines.any o.re then s.addFile displayPath else s

/-- What an entry of the walk is to the search. -/
def visit (o : Options) (searchPath : Str) (found : FoundEntry) (s : Search) : Search :=
  match found.2 with
  | .inl (.regular file) =>
      if kept kIgnoreDirs searchPath found ∧ globFilter (lastName found.1) o.globFilter then
        processFile o (relativePath found.1) file s
      else s
  | _ => s

/-- The loop over the iterator; `none` where the iterator throws. -/
def searchSteps (o : Options) (searchPath : Str) : List (Option FoundEntry) → Search → Option Search
  | [], s => some s
  | none :: _, _ => none
  | some found :: rest, s =>
      let s := visit o searchPath found s
      if s.truncated then some s else searchSteps o searchPath rest s

/-- What a file that is searched on its own is shown as. `fs::relative` of a path to the empty
path is empty. -/
def fileDisplay (target : Str) : Str := if parentPath target = [] then [] else fileName target

def searchPlace (o : Options) (searchPath : Str) : Place → Option Search
  | .file file =>
      if globFilter (fileName searchPath) o.globFilter then
        some (processFile o (fileDisplay searchPath) file {})
      else some {}
  | .directory d => searchSteps o searchPath d.steps {}
  | .special => some {}

/-! ## The answer -/

def notes (s : Search) : List Str :=
  (if s.truncated then [lit "(output truncated)"] else []) ++
    (if 0 < s.skippedBinary then
      [lit "(skipped " ++ toDecimal s.skippedBinary ++ lit " binary files)"] else []) ++
    if 0 < s.skippedLarge then
      [lit "(skipped " ++ toDecimal s.skippedLarge ++ lit " large files)"] else []

/-- What is listed, before it is cut to the limit, and the separator. -/
def Search.listed (o : Options) (s : Search) : List Str × Str :=
  match o.mode with
  | .filesWithMatches => (s.matchingFiles.take o.headLimit, lit "\n")
  | .count =>
      ((s.counts.entries.map fun entry => entry.1 ++ lit ": " ++ toDecimal entry.2).take
        o.headLimit, lit "\n")
  | .content => (s.blocks, lit "\n\n")

def Search.text (o : Options) (pattern searchPath : Str) (s : Search) : Str :=
  let (items, separator) := s.listed o
  if items = [] then
    lit "No matches found for pattern '" ++ pattern ++ lit "' in " ++ searchPath
  else
    separator.intercalate items ++
      if notes s = [] then [] else lit "\n\n" ++ (lit ", ").intercalate (notes s)

/-- `GrepTool::Invoke`. `compile` is the constructor of `std::regex`, and `what` the text of the
exception of an iterator. -/
def invoke (compile : Bool → Str → Except Str (Str → Bool)) (what : Str) (tree : FileTree)
    (input : Str) : Str :=
  let pattern := parseStringField input (lit "pattern")
  if pattern = [] then lit "Error: 'pattern' parameter is required"
  else
    let searchPath :=
      let path := parseStringField input (lit "path")
      if path = [] then lit "." else path
    let outputMode :=
      let mode := parseStringField input (lit "output_mode")
      if mode = [] then lit "files_with_matches" else mode
    let caseInsensitive := parseBoolField input (lit "case_insensitive") false
    let headLimit :=
      let limit := parseIntField input (lit "head_limit") kDefaultHeadLimit
      if limit ≤ 0 then kDefaultHeadLimit else limit
    match tree searchPath with
    | none => lit "Error: Path not found: " ++ searchPath
    | some place =>
        match compile caseInsensitive pattern with
        | .error e => lit "Error: invalid regex pattern: " ++ e
        | .ok re =>
            let o : Options :=
              { mode := .ofText outputMode
                headLimit := headLimit.toNat
                contextBefore := parseIntField input (lit "context_before") 0
                contextAfter := parseIntField input (lit "context_after") 0
                globFilter := parseStringField input (lit "glob")
                re := re }
            match searchPlace o searchPath place with
            | none => lit "Error searching files: " ++ what
            | some s => s.text o pattern searchPath

/-! ## What is searched -/

/-- A file that is neither too large, binary, nor empty. -/
def Searched (file : SourceFile) : Prop :=
  file.content.length ≤ kMaxFileBytes ∧ file.readable = true ∧ isBinary file.content = false ∧
    file.content ≠ []

instance (file : SourceFile) : Decidable (Searched file) := inferInstanceAs (Decidable (_ ∧ _))

/-- The lines of an entry that is searched, under the path they are shown with. -/
def source (o : Options) (searchPath : Str) (found : FoundEntry) : Option (Str × List Str) :=
  match found.2 with
  | .inl (.regular file) =>
      if kept kIgnoreDirs searchPath found ∧ globFilter (lastName found.1) o.globFilter ∧
          Searched file then
        some (relativePath found.1, getLines 10 file.content)
      else none
  | _ => none

def sources (o : Options) (searchPath : Str) (entries : List FoundEntry) : List (Str × List Str) :=
  entries.filterMap (source o searchPath)

/-- The blocks of the matching lines of a file from `idx` on. -/
def blocksFrom (o : Options) (displayPath : Str) (lines : List Str) : Nat → List Str → List Str
  | _, [] => []
  | idx, line :: rest =>
      if o.re line = false then blocksFrom o displayPath lines (idx + 1) rest
      else block o displayPath lines idx :: blocksFrom o displayPath lines (idx + 1) rest

/-- The blocks of what an entry of the walk holds. -/
def entryBlocks (o : Options) (searchPath : Str) (found : FoundEntry) : List Str :=
  ((source o searchPath found).toList).flatMap fun file => blocksFrom o file.1 file.2 0 file.2

/-- All blocks there are to show. -/
def allBlocks (o : Options) (searchPath : Str) (entries : List FoundEntry) : List Str :=
  entries.flatMap (entryBlocks o searchPath)

/-! ## The content -/

/-- The blocks that are shown when there are some already. -/
abbrev shown (o : Options) (taken blocks : List Str) : List Str × Bool :=
  Fitting.fill o.headLimit kMaxResultChars List.length taken blocks

/-- The search has taken these blocks, and was cut off there or not. -/
structure Shows (taken : List Str × Bool) (s : Search) : Prop where
  blocks : s.blocks = taken.1
  truncated : s.truncated = taken.2
  resultChars : s.resultChars = (s.blocks.map List.length).sum

/-- A file that is left out is at most counted. -/
theorem processFile_leftOut (o : Options) (displayPath : Str) {file : SourceFile}
    (h : ¬ Searched file) (s : Search) :
    ∃ binary large, processFile o displayPath file s =
      { s with skippedBinary := binary, skippedLarge := large } := by
  unfold Searched at h
  unfold processFile
  split
  · exact ⟨_, _, rfl⟩
  · split
    · exact ⟨_, _, rfl⟩
    · split
      · exact ⟨_, _, rfl⟩
      · rename_i hlarge hfails hempty
        rw [not_or, Bool.not_eq_false, Bool.not_eq_true] at hfails
        exact absurd ⟨not_lt.mp hlarge, hfails.1, hfails.2, hempty⟩ h

theorem processFile_searched (o : Options) (displayPath : Str) {file : SourceFile}
    (h : Searched file) (s : Search) :
    processFile o displayPath file s =
      let lines := getLines 10 file.content
      let s := searchLines o displayPath lines 0 lines s
      if o.mode ≠ .content ∧ lines.any o.re then s.addFile displayPath else s := by
  obtain ⟨hlarge, hreadable, hbinary, hempty⟩ := h
  have hread : ¬ (file.readable = false ∨ isBinary file.content = true) := by
    rw [hreadable, hbinary]
    simp
  rw [processFile, if_neg (not_lt.mpr hlarge), if_neg hread, if_neg hempty]

/-- What an entry comes to: a file that is searched, or nothing but a number of files left out. -/
theorem visit_cases (o : Options) (searchPath : Str) (found : FoundEntry) (s : Search) :
    (∃ file, Searched file ∧
      source o searchPath found = some (relativePath found.1, getLines 10 file.content) ∧
      visit o searchPath found s = processFile o (relativePath found.1) file s) ∨
    (source o searchPath found = none ∧ ∃ binary large, visit o searchPath found s =
      { s with skippedBinary := binary, skippedLarge := large }) := by
  unfold visit source
  split
  · rename_i file _
    by_cases hkept : kept kIgnoreDirs searchPath found = true ∧
        globFilter (lastName found.1) o.globFilter = true
    · rw [if_pos hkept]
      by_cases hsearched : Searched file
      · exact Or.inl ⟨file, hsearched, if_pos ⟨hkept.1, hkept.2, hsearched⟩, rfl⟩
      · refine Or.inr ⟨if_neg fun hall => hsearched hall.2.2, ?_⟩
        exact processFile_leftOut o _ hsearched s
    · rw [if_neg hkept, if_neg fun hall => hkept ⟨hall.1, hall.2.1⟩]
      exact Or.inr ⟨rfl, s.skippedBinary, s.skippedLarge, rfl⟩
  · exact Or.inr ⟨rfl, s.skippedBinary, s.skippedLarge, rfl⟩

section Content

variable {o : Options} (hmode : o.mode = .content)

include hmode

theorem searchLines_content (displayPath : Str) (lines : List Str) (idx : Nat) (rest : List Str)
    {s : Search} (h : Shows (s.blocks, false) s) :
    Shows (shown o s.blocks (blocksFrom o displayPath lines idx rest))
      (searchLines o displayPath lines idx rest s) := by
  induction rest generalizing idx s with
  | nil => exact h
  | cons line rest ih =>
      obtain ⟨-, hnotCut, hchars⟩ := h
      rw [searchLines, blocksFrom]
      split
      · exact ih (idx + 1) ⟨rfl, hnotCut, hchars⟩
      · simp only [hmode, Search.addBlock, shown, Fitting.fill, hchars]
        split
        · rw [if_pos rfl]
          exact ⟨rfl, rfl, rfl⟩
        · rw [hnotCut, if_neg Bool.false_ne_true]
          refine ih (idx + 1) (s := { s with
            blocks := s.blocks ++ [block o displayPath lines idx]
            resultChars := (s.blocks.map List.length).sum +
              (block o displayPath lines idx).length
            truncated := false }) ⟨rfl, rfl, ?_⟩
          simp

theorem visit_content (searchPath : Str) (found : FoundEntry) {s : Search}
    (h : Shows (s.blocks, false) s) :
    Shows (shown o s.blocks (entryBlocks o searchPath found)) (visit o searchPath found s) := by
  unfold entryBlocks
  rcases visit_cases o searchPath found s with ⟨file, hsearched, hsource, hvisit⟩ | hnone
  · rw [hvisit, hsource, processFile_searched o _ hsearched]
    simp only [hmode, ne_eq, not_true_eq_false, false_and, if_false, Option.toList_some,
      List.flatMap_singleton]
    exact searchLines_content hmode _ _ 0 _ h
  · obtain ⟨hsource, binary, large, hvisit⟩ := hnone
    rw [hvisit, hsource]
    exact ⟨rfl, h.truncated, h.resultChars⟩

/-- The loop over entries goes on until a block does not fit. -/
theorem searchSteps_content (searchPath : Str) (entries : List FoundEntry)
    (rest : List (Option FoundEntry)) {s : Search} (h : Shows (s.blocks, false) s) :
    ∃ t, Shows (shown o s.blocks (allBlocks o searchPath entries)) t ∧
      searchSteps o searchPath (entries.map some ++ rest) s =
        if t.truncated then some t else searchSteps o searchPath rest t := by
  induction entries generalizing s with
  | nil =>
      refine ⟨s, h, ?_⟩
      rw [h.truncated, if_neg Bool.false_ne_true]
      rfl
  | cons found entries ih =>
      have hvisit := visit_content hmode searchPath found h
      have hmore : shown o s.blocks (allBlocks o searchPath (found :: entries)) =
          if (visit o searchPath found s).truncated then
            shown o s.blocks (entryBlocks o searchPath found)
          else shown o (visit o searchPath found s).blocks (allBlocks o searchPath entries) := by
        rw [allBlocks, List.flatMap_cons, shown, Fitting.fill_append, hvisit.truncated,
          hvisit.blocks]
        rfl
      rw [List.map_cons, List.cons_append, searchSteps]
      by_cases hfull : (visit o searchPath found s).truncated = true
      · refine ⟨visit o searchPath found s, ?_, by simp only [hfull, if_true]⟩
        rw [hmore, if_pos hfull]
        exact hvisit
      · have hnext : Shows ((visit o searchPath found s).blocks, false)
            (visit o searchPath found s) :=
          ⟨rfl, Bool.eq_false_iff.mpr hfull, hvisit.resultChars⟩
        obtain ⟨t, ht, heq⟩ := ih hnext
        refine ⟨t, ?_, ?_⟩
        · rw [hmore, if_neg hfull]
          exact ht
        · simp only [Bool.eq_false_iff.mpr hfull, if_neg Bool.false_ne_true]
          exact heq

/-- A search that comes to an end shows what fits of all blocks, wherever it has ended. -/
theorem searchSteps_shows (searchPath : Str) (d : Directory) {s : Search}
    (h : searchSteps o searchPath d.steps {} = some s) :
    Shows (shown o [] (allBlocks o searchPath d.walk)) s := by
  have hstart : Shows (([] : List Str), false) ({} : Search) := ⟨rfl, rfl, rfl⟩
  rcases d.steps_cases with hall | ⟨before, rest, hstop, more, hwalk⟩
  · obtain ⟨t, ht, heq⟩ := searchSteps_content hmode searchPath d.walk [] (s := {}) hstart
    rw [List.append_nil, ← hall, h] at heq
    have hst : s = t := by
      split at heq
      · exact Option.some.inj heq
      · exact Option.some.inj heq
    exact hst ▸ ht
  · obtain ⟨t, ht, heq⟩ := searchSteps_content hmode searchPath before (none :: rest)
      (s := {}) hstart
    rw [← hstop, h] at heq
    by_cases hfull : t.truncated = true
    · rw [if_pos hfull] at heq
      have hcut := ht.truncated
      rw [hfull] at hcut
      rw [Option.some.inj heq, ← hwalk, allBlocks, List.flatMap_append, shown,
        Fitting.fill_append]
      unfold shown allBlocks at hcut ht
      rw [if_pos hcut.symm]
      exact ht
    · rw [if_neg hfull, searchSteps] at heq
      cases heq

end Content

/-- A directory with one file of two lines that match. -/
def demoDirectory : Directory where
  entries := .leaf (lit "a.txt") (.regular { content := lit "ab\nc\nb\n" }) .nil
  distinct := ⟨by decide, trivial⟩
  plain := ⟨⟨by decide, by decide, by decide, by decide⟩, trivial⟩

/-- A search for the letter `b` that shows one line before a match and no more than one block. -/
def demoOptions (mode : OutputMode) : Options where
  mode := mode
  headLimit := 1
  contextBefore := 1
  contextAfter := 0
  globFilter := []
  re := fun line => 98 ∈ line

theorem demoDirectory_opens : demoDirectory.Opens := ⟨rfl, trivial⟩

example : (searchPlace (demoOptions .content) (lit ".") (.directory demoDirectory)).map
    (fun s => (s.blocks, s.truncated)) = some ([lit "a.txt:1\n> 1| ab"], true) := by
  decide +kernel

/-- Nothing is found exactly when no line matches, or when the first block alone has too many
characters. -/
theorem content_nothing_iff {o : Options} (hmode : o.mode = .content) (hlimit : 0 < o.headLimit)
    {searchPath : Str} {d : Directory} {s : Search}
    (h : searchPlace o searchPath (.directory d) = some s) :
    s.blocks = [] ↔ ∀ b ∈ (allBlocks o searchPath d.walk).head?, kMaxResultChars < b.length := by
  rw [(searchSteps_shows hmode searchPath d h).blocks]
  exact Fitting.fill_nil_eq_nil_iff hlimit _

/-! ## Files and counts -/

/-- The paths of the files with a matching line. -/
def hits (o : Options) (files : List (Str × List Str)) : List Str :=
  (files.filter fun file => file.2.any o.re).map (·.1)

/-- What the search has of the files it has come to. -/
structure Lists (o : Options) (files : List (Str × List Str)) (s : Search) : Prop where
  notCut : s.truncated = false
  matchingFiles : s.matchingFiles = hits o files
  counts : o.mode = .count → ∀ k n, s.counts.get? k = some n ↔
    ∃ lines, (k, lines) ∈ files ∧ n = lines.countP o.re ∧ 0 < n

theorem counts_addCount (s : Search) (displayPath k : Str) :
    (s.addCount displayPath).counts.get? k =
      if k = displayPath then some ((s.counts.get? displayPath).getD 0 + 1)
      else s.counts.get? k :=
  OrderedMap.get?_update ..

/-- Counting the lines changes the number of this file, and nothing else. -/
theorem searchLines_count {o : Options} (hmode : o.mode = .count) (displayPath : Str)
    (lines : List Str) (idx : Nat) (rest : List Str) (s : Search) :
    ∃ counts, searchLines o displayPath lines idx rest s = { s with counts := counts } ∧
      ∀ k, counts.get? k =
        if k = displayPath ∧ 0 < rest.countP o.re then
          some ((s.counts.get? displayPath).getD 0 + rest.countP o.re)
        else s.counts.get? k := by
  induction rest generalizing idx s with
  | nil => exact ⟨s.counts, rfl, fun k => by simp⟩
  | cons line rest ih =>
      rw [searchLines]
      split
      · rename_i hline
        obtain ⟨counts, heq, hcounts⟩ := ih (idx + 1) s
        refine ⟨counts, heq, fun k => ?_⟩
        rw [hcounts, List.countP_cons_of_neg (by simp [hline])]
      · rename_i hline
        simp only [hmode]
        obtain ⟨counts, heq, hcounts⟩ := ih (idx + 1) (s.addCount displayPath)
        refine ⟨counts, heq, fun k => ?_⟩
        rw [hcounts, counts_addCount, counts_addCount, if_pos rfl, Option.getD_some,
          List.countP_cons_of_pos (by simpa using hline)]
        by_cases hk : k = displayPath
        · by_cases hmore : 0 < rest.countP o.re
          · rw [if_pos ⟨hk, hmore⟩, if_pos ⟨hk, by omega⟩]
            exact congrArg some (by omega)
          · rw [if_neg fun h => hmore h.2, if_pos hk, if_pos ⟨hk, by omega⟩]
            exact congrArg some (by omega)
        · rw [if_neg fun h => hk h.1, if_neg hk, if_neg fun h => hk h.1]

theorem searchLines_files {o : Options} (hmode : o.mode = .filesWithMatches) (displayPath : Str)
    (lines : List Str) (idx : Nat) (rest : List Str) (s : Search) :
    searchLines o displayPath lines idx rest s =
      if rest.any o.re then s.addFile displayPath else s := by
  induction rest generalizing idx with
  | nil => rfl
  | cons line rest ih =>
      rw [searchLines, List.any_cons]
      split
      · rename_i hline
        rw [ih, hline, Bool.false_or]
      · rename_i hline
        rw [Bool.not_eq_false] at hline
        simp only [hmode, hline, Bool.true_or, if_true]

theorem addFile_new {displayPath : Str} {s : Search} (h : displayPath ∉ s.matchingFiles) :
    s.addFile displayPath = { s with matchingFiles := s.matchingFiles ++ [displayPath] } :=
  if_neg h

theorem addFile_again (displayPath : Str) (s : Search) :
    (s.addFile displayPath).addFile displayPath = s.addFile displayPath := by
  by_cases h : displayPath ∈ s.matchingFiles
  · rw [Search.addFile, Search.addFile, if_pos h, if_pos h]
  · rw [addFile_new h]
    exact if_pos (by simp)

section Lists

variable {o : Options} (hmode : o.mode ≠ .content)

include hmode

/-- A file that is searched is entered once if it has a matching line, with their number. -/
theorem processFile_lists (displayPath : Str) {file : SourceFile} (h : Searched file)
    (s : Search) :
    ∃ counts, processFile o displayPath file s =
        { (if (getLines 10 file.content).any o.re then s.addFile displayPath else s) with
          counts := counts } ∧
      (o.mode = .count → ∀ k, counts.get? k =
        if k = displayPath ∧ 0 < (getLines 10 file.content).countP o.re then
          some ((s.counts.get? displayPath).getD 0 + (getLines 10 file.content).countP o.re)
        else s.counts.get? k) := by
  rw [processFile_searched o displayPath h]
  simp only [hmode, ne_eq, not_false_eq_true, true_and]
  generalize getLines 10 file.content = lines
  cases hm : o.mode with
  | content => exact absurd hm hmode
  | count =>
      obtain ⟨counts, heq, hcounts⟩ := searchLines_count hm displayPath lines 0 lines s
      refine ⟨counts, ?_, fun _ => hcounts⟩
      rw [heq]
      unfold Search.addFile
      split
      · split
        · rfl
        · rfl
      · rfl
  | filesWithMatches =>
      refine ⟨(if lines.any o.re then s.addFile displayPath else s).counts, ?_, nofun⟩
      rw [searchLines_files hm]
      split
      · exact addFile_again displayPath s
      · rfl

/-- One entry of the walk: its file is entered behind the others. -/
theorem visit_lists (searchPath : Str) (found : FoundEntry) {files : List (Str × List Str)}
    {s : Search} (h : Lists o files s)
    (hnew : ∀ file ∈ source o searchPath found, file.1 ∉ files.map (·.1)) :
    Lists o (files ++ (source o searchPath found).toList) (visit o searchPath found s) := by
  rcases visit_cases o searchPath found s with ⟨file, hsearched, hsource, hvisit⟩ | hnone
  · obtain ⟨counts, heq, hcounts⟩ := processFile_lists hmode (relativePath found.1) hsearched s
    rw [hsource] at hnew ⊢
    have hpath : relativePath found.1 ∉ files.map (·.1) := hnew _ rfl
    rw [hvisit, heq, Option.toList_some]
    generalize getLines 10 file.content = lines at hcounts hnew ⊢
    have hmissing : relativePath found.1 ∉ s.matchingFiles := by
      rw [h.matchingFiles]
      intro hmem
      obtain ⟨other, hother, hsame⟩ := List.mem_map.mp hmem
      exact hpath (List.mem_map.mpr ⟨other, List.mem_of_mem_filter hother, hsame⟩)
    rw [addFile_new hmissing]
    refine ⟨?_, ?_, fun hm k n => ?_⟩
    · split
      · exact h.notCut
      · exact h.notCut
    · rw [hits, List.filter_append, List.map_append, ← hits, ← h.matchingFiles]
      by_cases hany : lines.any o.re = true
      · simp [hany]
      · simp [hany]
    · simp only
      rw [hcounts hm]
      have hfresh : s.counts.get? (relativePath found.1) = none := by
        rw [Option.eq_none_iff_forall_ne_some]
        intro m hm'
        obtain ⟨lines', hmem, -⟩ := (h.counts hm _ m).mp hm'
        exact hpath (List.mem_map_of_mem hmem)
      rw [hfresh, Option.getD_none, Nat.zero_add]
      constructor
      · intro heq'
        split at heq'
        · rename_i hk
          cases heq'
          exact ⟨lines, by simp [hk.1], rfl, hk.2⟩
        · obtain ⟨lines', hmem, hn⟩ := (h.counts hm k n).mp heq'
          exact ⟨lines', List.mem_append_left _ hmem, hn⟩
      · rintro ⟨lines', hmem, hn, hpos⟩
        rcases List.mem_append.mp hmem with hmem | hmem
        · have hk : k ≠ relativePath found.1 := by
            rintro rfl
            exact hpath (List.mem_map_of_mem hmem)
          rw [if_neg fun hall => hk hall.1]
          exact (h.counts hm k n).mpr ⟨lines', hmem, hn, hpos⟩
        · cases List.mem_singleton.mp hmem
          rw [if_pos ⟨rfl, hn ▸ hpos⟩, hn]
  · obtain ⟨hsource, binary, large, hvisit⟩ := hnone
    rw [hvisit, hsource, Option.toList_none, List.append_nil]
    exact ⟨h.notCut, h.matchingFiles, h.counts⟩

theorem searchSteps_lists (searchPath : Str) (entries : List FoundEntry)
    (rest : List (Option FoundEntry)) {files : List (Str × List Str)} {s : Search}
    (h : Lists o files s)
    (hnodup : ((files ++ sources o searchPath entries).map (·.1)).Nodup) :
    ∃ t, Lists o (files ++ sources o searchPath entries) t ∧
      searchSteps o searchPath (entries.map some ++ rest) s = searchSteps o searchPath rest t := by
  induction entries generalizing files s with
  | nil => exact ⟨s, by simpa [sources] using h, rfl⟩
  | cons found entries ih =>
      have hcons : sources o searchPath (found :: entries) =
          (source o searchPath found).toList ++ sources o searchPath entries := by
        rw [sources, List.filterMap_cons]
        cases source o searchPath found with
        | none => rfl
        | some file => rfl
      rw [hcons, ← List.append_assoc] at hnodup ⊢
      have hnext := visit_lists hmode searchPath found h (fun file hfile hmem => by
        rw [hfile, Option.toList_some] at hnodup
        rw [List.append_assoc, List.map_append, List.nodup_append] at hnodup
        exact hnodup.2.2 _ hmem _ (by simp) rfl)
      obtain ⟨t, ht, heq⟩ := ih hnext hnodup
      refine ⟨t, ht, ?_⟩
      rw [List.map_cons, List.cons_append, searchSteps]
      simp only [hnext.notCut]
      exact heq

end Lists

theorem source_path {o : Options} {searchPath : Str} {found : FoundEntry}
    {file : Str × List Str} (h : source o searchPath found = some file) :
    file.1 = relativePath found.1 := by
  unfold source at h
  split at h
  · split at h
    · cases h
      rfl
    · cases h
  · cases h

/-- No two files of a walk are shown under one path. -/
theorem sources_nodup (o : Options) (searchPath : Str) (d : Directory) :
    ((sources o searchPath d.walk).map (·.1)).Nodup := by
  have hpaths := Forest.walk_nodup d.distinct []
  have hwalk : d.walk.Nodup := hpaths.of_map
  have hplain : ∀ found ∈ d.walk, found.1 ≠ [] ∧ ∀ name ∈ found.1, Session.PlainName name :=
    fun found h => d.walk_plain h
  have hinj := List.inj_on_of_nodup_map hpaths
  change ∀ ⦃found⦄, found ∈ d.walk → ∀ ⦃other⦄, other ∈ d.walk → _ at hinj
  generalize d.walk = entries at hwalk hplain hinj ⊢
  induction entries with
  | nil => exact List.nodup_nil
  | cons found entries ih =>
      rw [List.nodup_cons] at hwalk
      have hrest := ih hwalk.2 (fun other h => hplain other (List.mem_cons_of_mem _ h))
        fun a ha b hb => hinj (List.mem_cons_of_mem _ ha) (List.mem_cons_of_mem _ hb)
      rw [sources, List.filterMap_cons]
      split
      · exact hrest
      · rename_i file hfile
        rw [List.map_cons, List.nodup_cons]
        refine ⟨fun hmem => ?_, hrest⟩
        obtain ⟨file', hfile', hsame⟩ := List.mem_map.mp hmem
        obtain ⟨other, hother, hsource⟩ := List.mem_filterMap.mp hfile'
        rw [source_path hfile, source_path hsource] at hsame
        have hfound := hplain found List.mem_cons_self
        have hother' := hplain other (List.mem_cons_of_mem _ hother)
        have hpath := relativePath_inj hother'.1 hfound.1 hother'.2 hfound.2 hsame
        have heq := hinj (List.mem_cons_of_mem _ hother) List.mem_cons_self hpath
        exact hwalk.1 (heq ▸ hother)

end JiuwenCore.Tools.GrepTool
