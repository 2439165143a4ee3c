import JiuwenCore.Utils.ToolParser

/-!
# Skills

A skill is a directory with a Markdown file. `ParseSkillDir` takes its name and description from
the frontmatter of the file, and its body from what follows. Fences and keys are searched for
anywhere in the text.
-/

namespace JiuwenCore.SkillEngine

structure Skill where
  id : Str
  name : Str
  description : Str
  body : Str
  directory : Str
  deriving DecidableEq, Repr

def fence : Str := lit "---\n"

/-- Where the frontmatter starts and ends: behind the first fence, and at the next one. -/
def frontmatterRange (content : Str) : Option (Nat × Nat) :=
  match findFrom fence content 0 with
  | none => none
  | some frontStart =>
      match findFrom fence content (frontStart + 4) with
      | none => none
      | some frontEnd => some (frontStart + 4, frontEnd)

/-- The whitespace trimmed off the end of a value. -/
def isTail (c : UInt8) : Bool := c = 32 ∨ c = 9 ∨ c = 13 ∨ c = 10

/-- A value up to `find_last_not_of(" \t\r\n")`; one without such a byte stays as it is. -/
def trimTail (value : Str) : Str :=
  match value.reverse.dropWhile isTail with
  | [] => value
  | kept => kept.reverse

/-- The value in the frontmatter from `valStart` on. -/
def valueAt (frontmatter : Str) (valStart : Nat) : Str :=
  if frontmatter[valStart]? = some 34 then
    match findFrom [34] frontmatter (valStart + 1) with
    | none => []
    | some valEnd => substr frontmatter (valStart + 1) (valEnd - valStart - 1)
  else
    match findFrom [10] frontmatter valStart with
    | none => frontmatter.drop valStart
    | some valEnd => trimTail (substr frontmatter valStart (valEnd - valStart))

def extractFrontmatterField (content key : Str) : Str :=
  match frontmatterRange content with
  | none => []
  | some (frontStart, frontEnd) =>
      let frontmatter := substr content frontStart (frontEnd - frontStart)
      let searchKey := key ++ [58]
      match findFrom searchKey frontmatter 0 with
      | none => []
      | some keyPos =>
          match findNonBlank frontmatter (keyPos + searchKey.length) with
          | none => []
          | some valStart => valueAt frontmatter valStart

/-- The body `ParseSkillDir` takes from a text. -/
def bodyOf (content : Str) : Str :=
  match frontmatterRange content with
  | none => content
  | some (_, frontEnd) => content.drop (frontEnd + 4)

def candidates : List Str := [lit "SKILL.md", lit "skill.md", lit "CLAUDE.md"]

/-- The text of the first candidate that exists; `dir` has the files of the directory. -/
def skillText (dir : Str → Option Str) : Option Str := candidates.findSome? dir

def parseSkillDir (dir : Str → Option Str) (dirPath folderName : Str) : Skill :=
  match skillText dir with
  | some content =>
      let name := extractFrontmatterField content (lit "name")
      { id := folderName
        name := if name = [] then folderName else name
        description := extractFrontmatterField content (lit "description")
        body := bodyOf content
        directory := dirPath }
  | none =>
      { id := folderName
        name := folderName
        description := lit "No SKILL.md found."
        body := lit "# Skill " ++ folderName ++ lit "\nNo instructions found."
        directory := dirPath }

example : extractFrontmatterField (lit "---\nname: \"a b\"\nversion: 2 \n---\ntext")
    (lit "version") = lit "2" := by decide +kernel

end JiuwenCore.SkillEngine
