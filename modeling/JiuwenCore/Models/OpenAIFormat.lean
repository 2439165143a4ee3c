import JiuwenCore.Utils.Encoding
import JiuwenCore.Models.Request

/-!
# The OpenAI payload

`OpenAIModel::Format`. Without native tool use the calls of an assistant message and
the tool results are written into the texts of the messages. An exception of the
JSON library leaves no payload.
-/

namespace JiuwenCore.Models.OpenAI

/-- An entry of `messages`; the last two members only where the source sets them. -/
structure Entry where
  role : Str
  content : Str
  toolCallId : Option Str := none
  toolCalls : Option (List Json) := none

def Entry.toJson (entry : Entry) : Json :=
  .obj ([(lit "content", .str entry.content), (lit "role", .str entry.role)] ++
    entry.toolCallId.toList.map (fun id => (lit "tool_call_id", .str id)) ++
    entry.toolCalls.toList.map fun calls => (lit "tool_calls", .arr calls))

/-! ## Tools -/

def toolsArrayJson (tools : List ToolSchema) : Json :=
  .arr (tools.map fun t =>
    .obj [(lit "function",
        .obj [(lit "description", .str t.description), (lit "name", .str t.name),
          (lit "parameters", t.parameters)]),
      (lit "type", .str (lit "function"))])

def toolText (lib : JsonLib) (t : ToolSchema) : Option Str :=
  (lib.dumpIndented 2 t.parameters).map fun parameters =>
    lit "## " ++ t.name ++ lit "\n" ++ t.description ++ lit "\n" ++
      lit "Parameters JSON Schema:\n" ++ parameters ++ lit "\n\n"

def toolsHeading : Str :=
  lit "\n\n# Available tools\n" ++
    lit "When you need to call a tool, output a JSON object exactly of the form:\n" ++
    lit "  \x7b\"name\": \"<tool>\", \"arguments\": \x7b ... \x7d\x7d\n" ++
    lit "Do not wrap it in code fences. After receiving the Observation, " ++
    lit "decide whether to call more tools or produce a final answer.\n\n"

def toolsAsTextSchema (lib : JsonLib) (tools : List ToolSchema) : Option Str :=
  if tools = [] then some []
  else (tools.mapM (toolText lib)).map fun texts => toolsHeading ++ texts.flatten

def systemText (lib : JsonLib) (useNative : Bool) (systemPrompt : Str) (tools : List ToolSchema) :
    Option Str :=
  if useNative = false ∧ tools ≠ [] then
    (toolsAsTextSchema lib tools).map (systemPrompt ++ ·)
  else some systemPrompt

/-! ## Messages -/

def callJson (tc : ToolCall) : Json :=
  .obj [(lit "function",
      .obj [(lit "arguments", .str tc.argumentsJson), (lit "name", .str tc.name)]),
    (lit "id", .str tc.id), (lit "type", .str (lit "function"))]

def assistantEntry (lib : JsonLib) (useNative : Bool) (fixed : Str) (toolCalls : List ToolCall) :
    Option Entry :=
  if useNative ∧ toolCalls ≠ [] then
    some { role := Role.assistant, content := fixed, toolCalls := some (toolCalls.map callJson) }
  else if toolCalls ≠ [] then
    (serializeCalls lib toolCalls).map fun calls =>
      { role := Role.assistant
        content := (if fixed = [] then [] else fixed ++ lit "\n") ++ calls }
  else some { role := Role.assistant, content := fixed }

/-- The result as text, joined to the last entry when that is a user text. -/
def appendObservation (entries : List Entry) (fixed : Str) : List Entry :=
  let observation := lit "Observation:\n" ++ fixed
  match entries.getLast? with
  | none => entries ++ [{ role := Role.user, content := observation }]
  | some back =>
      if back.role = Role.user then
        let content :=
          if back.content = [] then observation else back.content ++ lit "\n\n" ++ observation
        entries.dropLast ++ [{ back with content := content }]
      else entries ++ [{ role := Role.user, content := observation }]

/-- The body of the loop over the messages. -/
def formatMessage (lib : JsonLib) (useNative : Bool) (entries : List Entry) (m : Message) :
    Option (List Entry) :=
  let fixed := fixStringUTF8 m.content
  if m.role = Role.assistant then
    (assistantEntry lib useNative fixed m.toolCalls).map fun entry => entries ++ [entry]
  else if m.role = Role.tool then
    if useNative then
      some (entries ++ [{ role := Role.tool, content := fixed, toolCallId := some m.toolCallId }])
    else some (appendObservation entries fixed)
  else some (entries ++ [{ role := m.role, content := fixed }])

/-! ## Pairing statistics -/

structure ToolPairingStats where
  assistantToolCalls : Nat := 0
  toolResults : Nat := 0
  missingIds : Nat := 0
  callIds : List Str := []
  resultIds : List Str := []

def ToolPairingStats.orphanToolCalls (stats : ToolPairingStats) : Nat :=
  (stats.callIds.dedup.filter (· ∉ stats.resultIds)).length

def ToolPairingStats.orphanToolResults (stats : ToolPairingStats) : Nat :=
  (stats.resultIds.dedup.filter (· ∉ stats.callIds)).length

def countCall (stats : ToolPairingStats) (tc : Json) : Option ToolPairingStats := do
  let id ← tc.value Json.getString (lit "id") []
  let stats := { stats with assistantToolCalls := stats.assistantToolCalls + 1 }
  if id = [] then some { stats with missingIds := stats.missingIds + 1 }
  else some { stats with callIds := stats.callIds ++ [id] }

def countMessage (stats : ToolPairingStats) (msg : Json) : Option ToolPairingStats := do
  let role ← msg.value Json.getString (lit "role") []
  match msg.member (lit "tool_calls") with
  | some (.arr toolCalls) =>
      if role = Role.assistant then toolCalls.foldlM countCall stats else countResult stats role msg
  | _ => countResult stats role msg
where
  countResult (stats : ToolPairingStats) (role : Str) (msg : Json) : Option ToolPairingStats :=
    if role = Role.tool then do
      let id ← msg.value Json.getString (lit "tool_call_id") []
      let stats := { stats with toolResults := stats.toolResults + 1 }
      if id = [] then some { stats with missingIds := stats.missingIds + 1 }
      else some { stats with resultIds := stats.resultIds ++ [id] }
    else some stats

/-- `ValidateToolPairing`; what it counts goes to the log, but its accessors throw. -/
def validateToolPairing (msgs : List Json) : Option ToolPairingStats := msgs.foldlM countMessage {}

/-! ## The payload -/

/-- A value of the extra parameters; a `float` by the bits of the `double` it is stored as. -/
inductive ConfigValue where
  | int (i : Int32)
  | float (bits : UInt64)
  | bool (b : Bool)
  | other

structure FormatConfig extends ModelConfig where
  extraParams : Str → Option ConfigValue := fun _ => none

def intParam (config : FormatConfig) (key : Str) : Option (Str × Json) :=
  match config.extraParams key with
  | some (.int i) => some (key, .int i.toInt)
  | _ => none

def floatParam (config : FormatConfig) (key : Str) : Option (Str × Json) :=
  match config.extraParams key with
  | some (.float bits) => some (key, .float bits)
  | _ => none

def boolParam (config : FormatConfig) (key : Str) : Option (Str × Json) :=
  match config.extraParams key with
  | some (.bool b) => some (key, .bool b)
  | _ => none

/-- The members around `messages`, in the order of their keys. -/
def payloadMembers (config : FormatConfig) (messages : Json) (tools : List ToolSchema) :
    List (Str × Json) :=
  (floatParam config (lit "frequency_penalty")).toList ++
    (intParam config (lit "max_tokens")).toList ++
    [(lit "messages", messages), (lit "model", .str config.modelName)] ++
    (if config.useNativeFunctionCalling then (boolParam config (lit "parallel_tool_calls")).toList
      else []) ++
    (floatParam config (lit "presence_penalty")).toList ++
    (intParam config (lit "seed")).toList ++
    [(lit "stream", .bool true)] ++
    (floatParam config (lit "temperature")).toList ++
    (if config.useNativeFunctionCalling ∧ tools ≠ [] then [(lit "tools", toolsArrayJson tools)]
      else []) ++
    (floatParam config (lit "top_p")).toList

def buildPayload (lib : JsonLib) (config : FormatConfig) (systemPrompt : Str)
    (messages : List Message) (tools : List ToolSchema) : Option Json := do
  let sys ← systemText lib config.useNativeFunctionCalling systemPrompt tools
  let leading : List Entry := if sys = [] then [] else [{ role := Role.system, content := sys }]
  let entries ← messages.foldlM (formatMessage lib config.useNativeFunctionCalling) leading
  let msgs := entries.map Entry.toJson
  if config.useNativeFunctionCalling then
    let _ ← validateToolPairing msgs
  some (.obj (payloadMembers config (.arr msgs) tools))

def format (lib : JsonLib) (config : FormatConfig) (systemPrompt : Str) (messages : List Message)
    (tools : List ToolSchema) : Option Str :=
  (buildPayload lib config systemPrompt messages tools).bind lib.dump

end JiuwenCore.Models.OpenAI
