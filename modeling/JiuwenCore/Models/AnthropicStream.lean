import JiuwenCore.Lib.LineFeed
import JiuwenCore.Models.Transport

/-!
# The Anthropic stream parser

`ProcessAnthropicSSEChunk` and the response `AnthropicModel::DoInvokeOnce` makes
of it. As for the other model, the unread bytes are kept beside the rest of the
context and an exception carries the context as it was at the throw. A
`message_stop` event drops what is left of the buffer.
-/

namespace JiuwenCore.Models.Anthropic

structure PartialToolUse where
  id : Str := []
  name : Str := []
  inputJson : Str := []
  deriving DecidableEq, Repr

/-- The parsed part of the stream context, and the texts handed to `onChunk`. -/
structure StreamContext where
  fullText : Str := []
  finishReason : Str := []
  toolUses : List PartialToolUse := []
  currentToolIndex : Int := -1
  onChunkCalls : List Str := []
  deriving DecidableEq, Repr

/-! ## Events -/

/-- The tool use a `content_block_start` opens; `none` where reading it throws. -/
def readToolUse (lib : JsonLib) (block : Json) : Option PartialToolUse := do
  let id ← block.value Json.getString (lit "id") []
  let name ← block.value Json.getString (lit "name") []
  match block.member (lit "input") with
  | some (.obj input) =>
      let inputJson ← lib.dump (.obj input)
      some { id := id, name := name, inputJson := inputJson }
  | _ => some { id := id, name := name }

def handleBlockStart (lib : JsonLib) (ctx : StreamContext) (data : Json) :
    Except StreamContext StreamContext :=
  match data.value (Json.getInt lib) (lit "index") (-1) with
  | none => .error ctx
  | some _ =>
      let block := data.memberOrNull (lit "content_block")
      match block.value Json.getString (lit "type") [] with
      | none => .error ctx
      | some blockType =>
          if blockType = lit "tool_use" then
            let ctx := { ctx with currentToolIndex := ctx.toolUses.length }
            match readToolUse lib block with
            | none => .error ctx
            | some tu => .ok { ctx with toolUses := ctx.toolUses ++ [tu] }
          else .ok { ctx with currentToolIndex := -1 }

def handleTextDelta (onChunk : OnChunk) (ctx : StreamContext) (delta : Json) :
    Except StreamContext StreamContext :=
  match delta.value Json.getString (lit "text") [] with
  | none => .error ctx
  | some text =>
      if text = [] then .ok ctx
      else
        let (calls, throws) := emit onChunk ctx.onChunkCalls text
        let ctx := { ctx with fullText := ctx.fullText ++ text, onChunkCalls := calls }
        if throws then .error ctx else .ok ctx

/-- Appends a fragment to the input of the tool use at `index`, if there is one. -/
def appendInput (toolUses : List PartialToolUse) (index : Int) (fragment : Str) :
    List PartialToolUse :=
  if 0 ≤ index ∧ index < toolUses.length then
    toolUses.modify index.toNat fun tu => { tu with inputJson := tu.inputJson ++ fragment }
  else toolUses

def handleInputDelta (ctx : StreamContext) (index : Int32) (delta : Json) :
    Except StreamContext StreamContext :=
  match delta.value Json.getString (lit "partial_json") [] with
  | none => .error ctx
  | some fragment =>
      if fragment = [] then .ok ctx
      else .ok { ctx with toolUses := appendInput ctx.toolUses index.toInt fragment }

def handleBlockDelta (lib : JsonLib) (onChunk : OnChunk) (ctx : StreamContext) (data : Json) :
    Except StreamContext StreamContext :=
  match data.value (Json.getInt lib) (lit "index") (-1) with
  | none => .error ctx
  | some index =>
      let delta := data.memberOrNull (lit "delta")
      match delta.value Json.getString (lit "type") [] with
      | none => .error ctx
      | some deltaType =>
          if deltaType = lit "text_delta" then handleTextDelta onChunk ctx delta
          else if deltaType = lit "input_json_delta" then handleInputDelta ctx index delta
          else .ok ctx

def handleMessageDelta (ctx : StreamContext) (data : Json) : Except StreamContext StreamContext :=
  match (data.member (lit "delta")).bind (Json.member (lit "stop_reason")) with
  | none => .ok ctx
  | some (.str reason) => .ok { ctx with finishReason := reason }
  | some _ => .error ctx

def handleEvent (lib : JsonLib) (onChunk : OnChunk) (ctx : StreamContext) (type : Str)
    (data : Json) : Except StreamContext StreamContext :=
  if type = lit "content_block_start" then handleBlockStart lib ctx data
  else if type = lit "content_block_delta" then handleBlockDelta lib onChunk ctx data
  else if type = lit "content_block_stop" then .ok { ctx with currentToolIndex := -1 }
  else if type = lit "message_delta" then handleMessageDelta ctx data
  else .ok ctx

/-- The event of a data line that can be parsed, with its type. -/
def readData (lib : JsonLib) (line : Str) : Option (Str × Json) :=
  if (lit "data: ").isPrefixOf line ∧ line.drop 6 ≠ [] then
    match lib.parse (line.drop 6) with
    | none => none
    | some data => (data.value Json.getString (lit "type") []).map fun type => (type, data)
  else none

/-- The body of the reading loop, and whether it clears the buffer and breaks. -/
def processLine (lib : JsonLib) (onChunk : OnChunk) (ctx : StreamContext) (line : Str) :
    StreamContext × Bool :=
  match readData lib line with
  | none => (ctx, false)
  | some (type, data) =>
      if type = lit "message_stop" then (ctx, true)
      else (caught (handleEvent lib onChunk ctx type data), false)

/-! ## Chunks and the response -/

/-- The context with its unread `buffer`. -/
abbrev Reader := StreamContext × Str

def processAnthropicSSEChunk (lib : JsonLib) (onChunk : OnChunk) (reader : Reader) (data : Str) :
    Reader :=
  LineFeed.feed 10 (processLine lib onChunk) reader data

def toToolCall (lib : JsonLib) (tu : PartialToolUse) : ToolCall :=
  let argumentsJson := if tu.inputJson = [] then lit "\x7b\x7d" else tu.inputJson
  { id := tu.id
    name := tu.name
    argumentsJson := if (lib.parse argumentsJson).isSome then argumentsJson else lit "\x7b\x7d" }

def mapFinishReason (fr : Str) : Str :=
  if fr = lit "end_turn" then lit "stop"
  else if fr = lit "tool_use" then lit "tool_calls"
  else if fr = lit "max_tokens" then lit "length"
  else fr

def doInvokeOnce (lib : JsonLib) (useNativeFunctionCalling : Bool) (onChunk : OnChunk)
    (transfer : Transfer) : ModelResponse :=
  let (reader, cancelled) :=
    postStream (processAnthropicSSEChunk lib onChunk) ({}, []) transfer.chunks
  let ctx := reader.1
  respond ctx.fullText cancelled transfer.response
    { content := ctx.fullText
      finishReason := mapFinishReason ctx.finishReason
      toolCalls := if useNativeFunctionCalling then ctx.toolUses.map (toToolCall lib) else [] }

end JiuwenCore.Models.Anthropic
