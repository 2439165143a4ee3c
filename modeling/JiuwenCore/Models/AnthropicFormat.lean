import JiuwenCore.Utils.Encoding
import JiuwenCore.Models.Request
import JiuwenCore.Context.Pairing

/-!
# The Anthropic payload

`AnthropicModel::Format`: a fold over the messages that fills `messages` and the
top-level `system`. Tool results are packed into the user entry started by the
first of them, as long as `awaitingToolBlock` stays set. An exception of the JSON
library leaves no payload.
-/

namespace JiuwenCore.Models.Anthropic

/-- An entry of `messages`. -/
structure Entry where
  role : Str
  content : Json

def Entry.toJson (entry : Entry) : Json :=
  .obj [(lit "content", entry.content), (lit "role", .str entry.role)]

/-- What the loop over the messages has built. -/
structure FormatState where
  entries : List Entry := []
  awaitingToolBlock : Bool := false
  system : Str := []

/-! ## Assistant messages -/

/-- An object, both as a block of an array and where it is the whole content. -/
def textBlock (text : Str) : Json :=
  .obj [(lit "text", .str text), (lit "type", .str (lit "text"))]

def toolUseBlock (lib : JsonLib) (tc : ToolCall) : Json :=
  .obj [(lit "id", .str tc.id), (lit "input", (lib.parse tc.argumentsJson).getD (.obj [])),
    (lit "name", .str tc.name), (lit "type", .str (lit "tool_use"))]

/-- The content of an assistant entry. Without native tool use, and without tool
calls, it is a single block that no array encloses. -/
def assistantContent (lib : JsonLib) (useNative : Bool) (fixed : Str) (toolCalls : List ToolCall) :
    Option Json :=
  if useNative ∧ toolCalls ≠ [] then
    some (.arr ((if fixed = [] then [] else [textBlock fixed]) ++
      toolCalls.map (toolUseBlock lib)))
  else if toolCalls ≠ [] then
    (serializeCalls lib toolCalls).map fun calls =>
      textBlock ((if fixed = [] then [] else fixed ++ lit "\n") ++ calls)
  else some (textBlock fixed)

/-! ## Tool messages -/

def toolResultBlock (toolUseId content : Str) : Json :=
  .obj [(lit "content", .str content), (lit "tool_use_id", .str toolUseId),
    (lit "type", .str (lit "tool_result"))]

def startToolResultBlock (entries : List Entry) : List Entry :=
  entries ++ [{ role := Role.user, content := .arr [] }]

def appendToolResult (st : FormatState) (toolUseId content : Str) : Option FormatState :=
  let entries :=
    if st.entries = [] ∨ st.awaitingToolBlock = false then startToolResultBlock st.entries
    else st.entries
  match entries.getLast? with
  | none => none
  | some back =>
      (back.content.pushBack (toolResultBlock toolUseId content)).map fun content =>
        { st with
          entries := entries.dropLast ++ [{ back with content := content }]
          awaitingToolBlock := true }

/-- The result as text: joined to the last entry when that is a user text. -/
def appendObservation (st : FormatState) (fixed : Str) : FormatState :=
  let observation := lit "Observation:\n" ++ fixed
  let pushed := st.entries ++ [{ role := Role.user, content := .str observation }]
  match st.entries.getLast? with
  | none => { st with entries := pushed }
  | some back =>
      if back.role = Role.user then
        if st.awaitingToolBlock then { st with entries := pushed, awaitingToolBlock := false }
        else
          let prev := back.content.getString.getD []
          let content := if prev = [] then observation else prev ++ lit "\n\n" ++ observation
          { st with entries := st.entries.dropLast ++ [{ back with content := .str content }] }
      else { st with entries := pushed }

/-! ## The payload -/

/-- The body of the loop over the messages. -/
def formatMessage (lib : JsonLib) (useNative : Bool) (st : FormatState) (m : Message) :
    Option FormatState :=
  let fixed := fixStringUTF8 m.content
  if m.role = Role.assistant then
    (assistantContent lib useNative fixed m.toolCalls).map fun content =>
      { st with
        entries := st.entries ++ [{ role := Role.assistant, content := content }]
        awaitingToolBlock := false }
  else if m.role = Role.tool then
    if useNative then appendToolResult st m.toolCallId fixed else some (appendObservation st fixed)
  else
    let st :=
      if m.role = Role.user ∧ st.awaitingToolBlock then { st with awaitingToolBlock := false }
      else st
    if m.role = Role.system then some { st with system := st.system ++ lit "\n\n" ++ fixed }
    else some { st with entries := st.entries ++ [{ role := m.role, content := .str fixed }] }

def anthropicToolsArray (tools : List ToolSchema) : Json :=
  .arr (tools.map fun t =>
    .obj [(lit "description", .str t.description), (lit "input_schema", t.parameters),
      (lit "name", .str t.name)])

def toolText (lib : JsonLib) (t : ToolSchema) : Option Str :=
  (lib.dumpIndented 2 t.parameters).map fun parameters =>
    lit "## " ++ t.name ++ lit "\n" ++ t.description ++ lit "\nParameters:\n" ++ parameters ++
      lit "\n\n"

def fallbackToolText (lib : JsonLib) (tools : List ToolSchema) : Option Str :=
  if tools = [] then some []
  else
    (tools.mapM (toolText lib)).map fun texts =>
      lit "\n\n# Available tools\n" ++ lit "When calling a tool, output a JSON object exactly:\n" ++
        lit "  \x7b\"name\":\"<tool>\",\"arguments\":\x7b...\x7d\x7d" ++
        lit "\nDo NOT wrap in code fences.\n\n" ++ texts.flatten

def systemText (lib : JsonLib) (useNative : Bool) (systemPrompt : Str) (tools : List ToolSchema) :
    Option Str :=
  if useNative = false ∧ tools ≠ [] then
    (fallbackToolText lib tools).map (systemPrompt ++ ·)
  else some systemPrompt

def buildPayload (lib : JsonLib) (config : ModelConfig) (systemPrompt : Str)
    (messages : List Message) (tools : List ToolSchema) : Option Json := do
  let sys ← systemText lib config.useNativeFunctionCalling systemPrompt tools
  let st ← messages.foldlM (formatMessage lib config.useNativeFunctionCalling) { system := sys }
  some (.obj ([(lit "max_tokens", .int 4096), (lit "messages", .arr (st.entries.map Entry.toJson)),
    (lit "model", .str config.modelName), (lit "stream", .bool true),
    (lit "system", .str st.system)] ++
    if config.useNativeFunctionCalling ∧ tools ≠ [] then
      [(lit "tools", anthropicToolsArray tools)] else []))

def format (lib : JsonLib) (config : ModelConfig) (systemPrompt : Str) (messages : List Message)
    (tools : List ToolSchema) : Option Str :=
  (buildPayload lib config systemPrompt messages tools).bind lib.dump

/-! ## One tool result -/

theorem appendToolResult_first {st : FormatState} (hawaiting : st.awaitingToolBlock = false)
    (toolUseId content : Str) :
    appendToolResult st toolUseId content = some
      { st with
        entries := st.entries ++ [⟨Role.user, .arr [toolResultBlock toolUseId content]⟩]
        awaitingToolBlock := true } := by
  simp [appendToolResult, hawaiting, startToolResultBlock, Json.pushBack]

/-- A further result is pushed onto the content of the last entry. -/
theorem appendToolResult_push {st : FormatState} (hawaiting : st.awaitingToolBlock = true)
    {front : List Entry} {back : Entry} (hentries : st.entries = front ++ [back])
    (toolUseId content : Str) :
    appendToolResult st toolUseId content =
      (back.content.pushBack (toolResultBlock toolUseId content)).map fun content =>
        { st with
          entries := front ++ [{ back with content := content }], awaitingToolBlock := true } := by
  simp [appendToolResult, hawaiting, hentries]

end JiuwenCore.Models.Anthropic
