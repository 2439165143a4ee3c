import JiuwenCore.Context.Window
import JiuwenCore.Core.EventSink
import JiuwenCore.Models.Transport
import JiuwenCore.Utils.ToolParser

/-!
# The dream processor

One `DreamProcessor::Run`: it reads the events behind the dream cursor, gives the first of them
to the model, lets it apply its findings to the memory files, and moves the cursor. Of the
answer of the model only `content` is looked at.

The model is what its calls return, in the order they are made, or what they throw; the files
of the workspace are kept by the tools, which are those of the caller.
-/

namespace JiuwenCore.Dream

open ContextEngine (toSizeT)
open HistoryStore (HistoryEntry Store readCursor)
open Json (printInt)
open Models

/-- The part of the configuration the processor reads. -/
structure DreamConfig where
  dataBasePath : Str := []
  maxBatchSize : Int32 := 20
  /-- Negative for no limit. -/
  maxIterations : Int32 := 10
  historyEntryPreviewMaxChars : Int32 := 4000
  memoryFileMaxChars : Int32 := 32000
  deriving DecidableEq, Repr

/-! ## Texts -/

def truncateText (text : Str) (maxChars : Int32) : Str :=
  if Int32.ofNat text.length ≤ maxChars then text
  else text.take (toSizeT maxChars) ++ lit "\n... (truncated)"

/-- The line of an entry. The session it belongs to is not in it. -/
def historyLine (config : DreamConfig) (entry : HistoryEntry) : Str :=
  lit "[" ++ entry.timestamp ++ lit "] " ++ entry.role ++
    (if entry.toolName = [] then []
    else lit "(" ++ entry.toolName ++
      (if entry.toolCallId = [] then [] else lit " #" ++ entry.toolCallId) ++ lit ")") ++
    lit ": " ++ truncateText entry.content config.historyEntryPreviewMaxChars ++
    (if entry.payloadRef = [] then [] else lit " [payload:" ++ entry.payloadRef ++ lit "]") ++
    lit "\n"

def historyText (config : DreamConfig) (batch : List HistoryEntry) : Str :=
  (batch.map (historyLine config)).flatten

/-- The batch of a pass: `std::min` of the number of entries and `maxBatchSize`. -/
def batchOf (config : DreamConfig) (entries : List HistoryEntry) : List HistoryEntry :=
  entries.take (min (Int32.ofNat entries.length) config.maxBatchSize).toInt.toNat

/-! ## Findings -/

structure DreamFinding where
  type : Str
  content : Str := []
  skillName : Str := []
  skillDesc : Str := []
  deriving DecidableEq, Repr

/-- The marks of the findings that have a text, in the order they are tried. -/
def textTypes : List Str :=
  [lit "MEMORY-REMOVE", lit "SOUL-REMOVE", lit "USER-REMOVE", lit "MEMORY", lit "SOUL", lit "USER"]

def mark (type : Str) : Str := lit "[" ++ type ++ lit "]"

/-- The finding on a line of the answer. -/
def parseFinding (line : Str) : Option DreamFinding :=
  match textTypes.find? fun type => (mark type).isPrefixOf line with
  | some type =>
      let content := line.drop (mark type).length
      if content = [] then none else some { type := type, content := content }
  | none =>
      if (mark (lit "SKILL")).isPrefixOf line then
        let skillPart := line.drop (mark (lit "SKILL")).length
        match indexOf [58] skillPart with
        | some colonPos =>
            some {
              type := lit "SKILL"
              skillName := skillPart.take colonPos
              skillDesc := skillPart.drop (colonPos + 1) }
        | none => some { type := lit "SKILL", skillName := skillPart }
      else none

def parseFindings (response : Str) : List DreamFinding :=
  ((response.splitOn 10).filter (· ≠ [])).filterMap parseFinding

example : parseFindings (lit "[SKIP]\n[MEMORY] has a cat\n[SKILL] a-b: c") =
    [{ type := lit "MEMORY", content := lit " has a cat" },
      { type := lit "SKILL", skillName := lit " a-b", skillDesc := lit " c" }] := by decide +kernel

def findingsToText (findings : List DreamFinding) : Str :=
  (findings.map fun f =>
    if f.type = lit "SKILL" then
      lit "[SKILL] " ++ f.skillName ++ lit ": " ++ f.skillDesc ++ lit "\n"
    else lit "[" ++ f.type ++ lit "] " ++ f.content ++ lit "\n").flatten

/-! ## Files -/

/-- The files of the workspace, and the tools that change them. A tool returns an observation
or throws with a text. -/
structure FileTools (σ : Type) where
  /-- Empty for a file that cannot be opened. -/
  loadFile : Str → σ → Str
  readFile : Str → σ → Except Str Str × σ
  writeFile : Str → σ → Except Str Str × σ
  editFile : Str → σ → Except Str Str × σ

variable {σ : Type}

def executeTool (tools : FileTools σ) (toolName input : Str) (files : σ) : Str × σ :=
  let caught := fun r : Except Str Str × σ =>
    match r with
    | (.ok observation, files) => (observation, files)
    | (.error what, files) => (lit "Error: " ++ what, files)
  if toolName = lit "read_file" then caught (tools.readFile input files)
  else if toolName = lit "write_file" then caught (tools.writeFile input files)
  else if toolName = lit "edit_file" then caught (tools.editFile input files)
  else (lit "Error: Unknown tool '" ++ toolName ++ lit "'", files)

/-- The contents of the memory files as the processor has last read them. -/
structure FileCache where
  memoryContent : Str
  soulContent : Str
  userContent : Str

def memoryPath (config : DreamConfig) : Str := config.dataBasePath ++ lit "/memory/MEMORY.md"
def soulPath (config : DreamConfig) : Str := config.dataBasePath ++ lit "/SOUL.md"
def userPath (config : DreamConfig) : Str := config.dataBasePath ++ lit "/USER.md"

def loadFiles (config : DreamConfig) (tools : FileTools σ) (files : σ) : FileCache where
  memoryContent := tools.loadFile (memoryPath config) files
  soulContent := tools.loadFile (soulPath config) files
  userContent := tools.loadFile (userPath config) files

/-- The path in the arguments of a tool, empty if there is none. -/
def pathArgument (args : Str) : Str :=
  ((indexOf (lit "\"path\"") args).bind fun pathKey =>
    (valueStart args (pathKey + 6)).bind (quotedText args)).getD []

def refreshFileCache (config : DreamConfig) (tools : FileTools σ) (toolName args : Str) (files : σ)
    (cache : FileCache) : FileCache :=
  if toolName ∉ [lit "read_file", lit "edit_file", lit "write_file"] then cache
  else
    let path := pathArgument args
    if path = [] then cache
    else if (indexOf (lit "MEMORY.md") path).isSome then
      { cache with memoryContent := tools.loadFile (memoryPath config) files }
    else if (indexOf (lit "SOUL.md") path).isSome then
      { cache with soulContent := tools.loadFile (soulPath config) files }
    else if (indexOf (lit "USER.md") path).isSome then
      { cache with userContent := tools.loadFile (userPath config) files }
    else cache

/-! ## Prompts -/

structure Prompt where
  system : Str
  user : Str
  deriving DecidableEq, Repr

def defaultPhase1Prompt : Str :=
  lit "You have TWO equally important tasks:\n" ++
  lit "1. Extract new facts from conversation history\n" ++
  lit "2. Deduplicate existing memory files - find and flag redundant, overlapping, or stale content\n\n" ++
  lit "Output one line per finding:\n" ++
  lit "[MEMORY] atomic fact (not already in memory)\n" ++
  lit "[MEMORY-REMOVE] reason for removal\n" ++
  lit "[SOUL] bot behavior/tone correction\n" ++
  lit "[SOUL-REMOVE] reason for removal\n" ++
  lit "[USER] user identity, preference correction\n" ++
  lit "[USER-REMOVE] reason for removal\n" ++
  lit "[SKILL] kebab-case-name: one-line description of a reusable pattern\n" ++
  lit "[SKIP] if nothing new\n\n" ++
  lit "Rules:\n" ++
  lit "- Atomic facts: has a cat named Luna not discussed pet care\n" ++
  lit "- Corrections: [USER] location is Tokyo, not Osaka\n" ++
  lit "- Capture confirmed approaches the user validated\n\n" ++
  lit "Staleness check:\n" ++
  lit "- User habits/preferences/personality traits are permanent regardless of age\n" ++
  lit "- Only prune objectively outdated: passed events, resolved tracking, superseded approaches\n\n" ++
  lit "Skill discovery - flag [SKILL] when ALL of these are true:\n" ++
  lit "- A specific, repeatable workflow appeared 2+ times\n" ++
  lit "- It involves clear steps\n" ++
  lit "- It is substantial enough to warrant its own instruction set\n\n" ++
  lit "Do not add: current weather, transient status, temporary errors, conversational filler.\n"

def defaultPhase2Prompt (config : DreamConfig) : Str :=
  lit "You are a memory maintenance agent. Your job is to update memory files based on the findings below.\n\n" ++
  lit "## Available Tools\n" ++
  lit "1. read_file: Read a file's content. Use it if you need to see the full content of a file before editing.\n" ++
  lit "   Input: \x7b\"path\": \"path/to/file.md\"\x7d\n" ++
  lit "2. edit_file: Make surgical edits to a file using find-and-replace.\n" ++
  lit "   Input: \x7b\"path\": \"path/to/file.md\", \"old_text\": \"text to find\", \"new_text\": \"replacement text\"\x7d\n" ++
  lit "3. write_file: Create a new file. Only use this for creating skill files under my_skills/.\n" ++
  lit "   Input: \x7b\"path\": \"path/to/file.md\", \"content\": \"file content\"\x7d\n\n" ++
  lit "## File Paths\n" ++
  lit "- MEMORY.md: " ++ memoryPath config ++ lit "\n" ++
  lit "- SOUL.md: " ++ soulPath config ++ lit "\n" ++
  lit "- USER.md: " ++ userPath config ++ lit "\n" ++
  lit "- Skills: my_skills/<name>/SKILL.md\n\n" ++
  lit "## Editing Rules\n" ++
  lit "- Use edit_file for existing files, write_file only for new skill files\n" ++
  lit "- For edit_file: use exact text from the file content as old_text\n" ++
  lit "- If old_text doesn't match, use read_file first to get the exact content\n" ++
  lit "- For deletions: use edit_file with new_text as empty string\n" ++
  lit "- Batch multiple edits to the same file into separate edit_file calls\n" ++
  lit "- Surgical edits only - never rewrite entire files\n" ++
  lit "- When done with all updates, output: DONE\n\n" ++
  lit "## Skill Creation Rules\n" ++
  lit "- Use write_file to create my_skills/<name>/SKILL.md\n" ++
  lit "- Include YAML frontmatter with name and description\n" ++
  lit "- Keep SKILL.md under 2000 words\n" ++
  lit "- Include: when to use, steps, output format, example\n" ++
  lit "- Do NOT overwrite existing skills\n"

def loadDreamPhase1Prompt (config : DreamConfig) (tools : FileTools σ) (files : σ) : Str :=
  let content := tools.loadFile (config.dataBasePath ++ lit "/dream_phase1.md") files
  if content = [] then defaultPhase1Prompt else content

def loadDreamPhase2Prompt (config : DreamConfig) (tools : FileTools σ) (files : σ) : Str :=
  let content := tools.loadFile (config.dataBasePath ++ lit "/dream_phase2.md") files
  if content = [] then defaultPhase2Prompt config else content

/-- A memory file as both prompts show it. -/
def fileSection (config : DreamConfig) (name content : Str) : Str :=
  name ++ lit " (" ++ toDecimal content.length ++ lit " chars)\n" ++
    truncateText (if content = [] then lit "(empty)" else content) config.memoryFileMaxChars

/-- The prompt of `Phase1Analysis`. -/
def phase1Prompt (config : DreamConfig) (tools : FileTools σ) (now historyText : Str) (files : σ) :
    Prompt :=
  let cache := loadFiles config tools files
  { system := loadDreamPhase1Prompt config tools files
    user := lit "## Conversation History\n" ++ historyText ++ lit "\n\n" ++
      lit "## Current Time\n" ++ now ++ lit "\n\n" ++
      fileSection config (lit "## Current MEMORY.md") cache.memoryContent ++ lit "\n\n" ++
      fileSection config (lit "## Current SOUL.md") cache.soulContent ++ lit "\n\n" ++
      fileSection config (lit "## Current USER.md") cache.userContent }

def buildPhase2Prompt (config : DreamConfig) (findings : List DreamFinding) (scratchpad : Str)
    (cache : FileCache) : Str :=
  lit "## Findings to Apply\n" ++ findingsToText findings ++ lit "\n\n" ++
    lit "## Current File Contents\n\n" ++
    fileSection config (lit "### " ++ memoryPath config) cache.memoryContent ++ lit "\n\n" ++
    fileSection config (lit "### " ++ soulPath config) cache.soulContent ++ lit "\n\n" ++
    fileSection config (lit "### " ++ userPath config) cache.userContent ++
    (if scratchpad = [] then [] else lit "\n\n## Tool Interaction History\n" ++ scratchpad)

/-! ## Phase 2 -/

/-- What the calls of the model return, by number, or what they throw. -/
abbrev Answers := Nat → Except Str ModelResponse

/-- Phase 2 between two calls of the model. -/
structure Phase2State (σ : Type) where
  files : σ
  cache : FileCache
  scratchpad : Str := []

def scratchpadEntry (iteration : Nat) (call : ParsedToolCall) (observation : Str) : Str :=
  lit "Thought: (model response iteration " ++ toDecimal (iteration + 1) ++ lit ")\n" ++
    lit "Action: " ++ call.name ++ lit "\n" ++
    lit "Action Input: " ++ call.arguments ++ lit "\n" ++
    lit "Observation: " ++ observation ++ lit "\n\n"

def runCall (config : DreamConfig) (tools : FileTools σ) (iteration : Nat) (st : Phase2State σ)
    (call : ParsedToolCall) : Phase2State σ :=
  let (observation, files) := executeTool tools call.name call.arguments st.files
  { files := files
    cache := refreshFileCache config tools call.name call.arguments files st.cache
    scratchpad := st.scratchpad ++ scratchpadEntry iteration call observation }

/-- The answer ends Phase 2. -/
def Settles (response : ModelResponse) : Prop :=
  (indexOf (lit "DONE") response.content).isSome = true ∨
    extractAllToolCalls response.content = []

instance (response : ModelResponse) : Decidable (Settles response) :=
  inferInstanceAs (Decidable (_ ∨ _))

/-- There is another iteration. -/
def Continues (config : DreamConfig) (iteration : Nat) : Prop :=
  config.maxIterations < 0 ∨ (iteration : Int) < config.maxIterations.toInt

instance (config : DreamConfig) (iteration : Nat) : Decidable (Continues config iteration) :=
  inferInstanceAs (Decidable (_ ∨ _))

/-- The end of a phase: what it returns or throws, and the prompts of its calls. -/
structure PhaseEnd (σ : Type) where
  outcome : Except Str Bool
  files : σ
  prompts : List Prompt

/-- The loop of `Phase2Execution`, watched for `fuel` iterations; `none` while it goes on. Call
number 0 was that of Phase 1. -/
@[grind =] def phase2Loop (config : DreamConfig) (tools : FileTools σ) (answers : Answers)
    (findings : List DreamFinding) (systemPrompt : Str) :
    Nat → Nat → Phase2State σ → List Prompt → Option (PhaseEnd σ)
  | 0, _, _, _ => none
  | fuel + 1, iteration, st, prompts =>
      if Continues config iteration then
        let prompts := prompts ++
          [{ system := systemPrompt
             user := buildPhase2Prompt config findings st.scratchpad st.cache }]
        match answers (iteration + 1) with
        | .error what => some { outcome := .error what, files := st.files, prompts := prompts }
        | .ok response =>
            if Settles response then
              some { outcome := .ok true, files := st.files, prompts := prompts }
            else
              phase2Loop config tools answers findings systemPrompt fuel (iteration + 1)
                ((extractAllToolCalls response.content).foldl (runCall config tools iteration) st)
                prompts
      else some { outcome := .ok false, files := st.files, prompts := prompts }

def phase2Execution (config : DreamConfig) (tools : FileTools σ) (answers : Answers) (fuel : Nat)
    (findings : List DreamFinding) (files : σ) (prompts : List Prompt) : Option (PhaseEnd σ) :=
  phase2Loop config tools answers findings (loadDreamPhase2Prompt config tools files) fuel 0
    { files := files, cache := loadFiles config tools files } prompts

/-! ## A pass -/

/-- The history with the file of the dream cursor. -/
structure DreamStore where
  history : Store := {}
  dreamCursorFile : Option Str := none
  deriving DecidableEq, Repr

namespace DreamStore

def getLastDreamCursor (d : DreamStore) : Int := readCursor d.dreamCursorFile

def setLastDreamCursor (cursor : Int) (d : DreamStore) : DreamStore :=
  { d with dreamCursorFile := some (printInt cursor) }

/-- What the next pass reads. -/
def unprocessed (d : DreamStore) : List HistoryEntry :=
  d.history.readUnprocessedHistory d.getLastDreamCursor

end DreamStore

/-- The end of a pass. -/
structure PassEnd (σ : Type) where
  outcome : Except Str Bool
  store : DreamStore
  files : σ
  prompts : List Prompt

/-- `Run`; `none` while Phase 2 goes on. A batch without an entry is undefined, the source reads
in front of it. -/
def run (config : DreamConfig) (tools : FileTools σ) (answers : Answers) (now : Str) (fuel : Nat)
    (files : σ) (d : DreamStore) : Option (PassEnd σ) :=
  let entries := d.unprocessed
  if entries = [] then some { outcome := .ok false, store := d, files := files, prompts := [] }
  else
    match (batchOf config entries).getLast? with
    | none => none
    | some last =>
        let moved := d.setLastDreamCursor last.cursor
        let prompts :=
          [phase1Prompt config tools now (historyText config (batchOf config entries)) files]
        match answers 0 with
        | .error what =>
            some { outcome := .error what, store := d, files := files, prompts := prompts }
        | .ok response =>
            let findings := parseFindings response.content
            if findings = [] then
              some { outcome := .ok false, store := moved, files := files, prompts := prompts }
            else
              (phase2Execution config tools answers fuel findings files prompts).map fun ended =>
                { outcome := ended.outcome
                  store := if ended.outcome.isOk then moved else d
                  files := ended.files
                  prompts := ended.prompts }

end JiuwenCore.Dream
