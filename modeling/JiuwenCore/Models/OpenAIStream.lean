import JiuwenCore.Lib.LineFeed
import JiuwenCore.Lib.OrderedMap
import JiuwenCore.Models.Transport

/-!
# The OpenAI stream parser

`ProcessSSEChunk` and the response `OpenAIModel::DoInvokeOnce` makes of it. The
unread bytes are kept beside the rest of the context. An exception thrown while
a line is handled leaves the context as it was at the throw, so the handlers
return it as the error.
-/

namespace JiuwenCore.Models.OpenAI

structure PartialToolCall where
  id : Str := []
  name : Str := []
  argumentsJson : Str := []
  deriving DecidableEq, Repr

/-- The parsed part of the stream context, and the texts handed to `onChunk`. -/
structure StreamContext where
  fullText : Str := []
  finishReason : Str := []
  finished : Bool := false
  partialToolCalls : OrderedMap Int PartialToolCall := OrderedMap.empty
  onChunkCalls : List Str := []

/-! ## One line -/

def handleContent (onChunk : OnChunk) (ctx : StreamContext) (delta : Json) :
    Except StreamContext StreamContext :=
  match delta.stringMember (lit "content") with
  | none => .ok ctx
  | some content =>
      if content = [] then .ok ctx
      else
        let (calls, throws) := emit onChunk ctx.onChunkCalls content
        let ctx := { ctx with fullText := ctx.fullText ++ content, onChunkCalls := calls }
        if throws then .error ctx else .ok ctx

/-- What one entry of `tool_calls` does to its slot. -/
def fillSlot (tc : Json) (slot : PartialToolCall) : PartialToolCall :=
  let slot := match tc.stringMember (lit "id") with
    | some id => { slot with id := id }
    | none => slot
  match tc.member (lit "function") with
  | none => slot
  | some fn =>
      let slot := match fn.stringMember (lit "name") with
        | some name => { slot with name := slot.name ++ name }
        | none => slot
      match fn.stringMember (lit "arguments") with
      | some arguments => { slot with argumentsJson := slot.argumentsJson ++ arguments }
      | none => slot

def handleToolCalls (lib : JsonLib) (ctx : StreamContext) :
    List Json → Except StreamContext StreamContext
  | [] => .ok ctx
  | tc :: rest =>
      match tc.value (Json.getInt lib) (lit "index") 0 with
      | none => .error ctx
      | some idx =>
          let slots := ctx.partialToolCalls.update idx.toInt {} (fillSlot tc)
          handleToolCalls lib { ctx with partialToolCalls := slots } rest

def handleDelta (lib : JsonLib) (onChunk : OnChunk) (ctx : StreamContext) (delta : Json) :
    Except StreamContext StreamContext := do
  let ctx ← handleContent onChunk ctx delta
  match delta.member (lit "tool_calls") with
  | some (.arr toolCalls) => handleToolCalls lib ctx toolCalls
  | _ => .ok ctx

def handleFinishReason (ctx : StreamContext) (choice : Json) :
    Except StreamContext StreamContext :=
  match choice.member (lit "finish_reason") with
  | none | some .null => .ok ctx
  | some (.str reason) => .ok { ctx with finishReason := reason, finished := true }
  | some _ => .error ctx

def handleChoice (lib : JsonLib) (onChunk : OnChunk) (ctx : StreamContext) (choice : Json) :
    Except StreamContext StreamContext := do
  let ctx ← (choice.member (lit "delta")).elim (.ok ctx) (handleDelta lib onChunk ctx)
  handleFinishReason ctx choice

/-- The choice a line carries, when it is a data line with a parsable event that
has one. -/
def readChoice (lib : JsonLib) (dataStr : Str) : Option Json :=
  match lib.parse dataStr with
  | none => none
  | some data =>
      match data.member (lit "choices") with
      | some (.arr (choice :: _)) => some choice
      | _ => none

/-- The body of the reading loop. Exceptions end the handling of the line. -/
def processLine (lib : JsonLib) (onChunk : OnChunk) (ctx : StreamContext) (line : Str) :
    StreamContext :=
  if (lit "data: ").isPrefixOf line then
    let dataStr := line.drop 6
    if dataStr = lit "[DONE]" then { ctx with finished := true }
    else
      match readChoice lib dataStr with
      | none => ctx
      | some choice => caught (handleChoice lib onChunk ctx choice)
  else ctx

/-! ## Chunks -/

/-- The context with its unread `buffer`. -/
abbrev Reader := StreamContext × Str

def processSSEChunk (lib : JsonLib) (onChunk : OnChunk) (reader : Reader) (data : Str) : Reader :=
  LineFeed.feed 10 (fun ctx line => (processLine lib onChunk ctx line, false)) reader data

/-! ## The response -/

def toolCallsOf (ctx : StreamContext) : List ToolCall :=
  ctx.partialToolCalls.entries.map fun kv =>
    { id := kv.2.id
      name := kv.2.name
      argumentsJson := if kv.2.argumentsJson = [] then lit "\x7b\x7d" else kv.2.argumentsJson }

def doInvokeOnce (lib : JsonLib) (useNativeFunctionCalling : Bool) (onChunk : OnChunk)
    (transfer : Transfer) : ModelResponse :=
  let (reader, cancelled) := postStream (processSSEChunk lib onChunk) ({}, []) transfer.chunks
  let ctx := reader.1
  respond ctx.fullText cancelled transfer.response
    { content := ctx.fullText
      finishReason := if ctx.finishReason = [] then lit "stop" else ctx.finishReason
      toolCalls := if useNativeFunctionCalling then toolCallsOf ctx else [] }

end JiuwenCore.Models.OpenAI
