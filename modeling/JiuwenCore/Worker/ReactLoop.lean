import JiuwenCore.Context.Engine
import JiuwenCore.Models.Transport
import JiuwenCore.Utils.ToolParser

/-!
# The loop of the worker

`ReactAgentWorker::ReactLoop`. What the loop does not compute itself is an
argument of each iteration: whether it is cancelled, what the model answers, what
the tools return, whether the sink of an event throws. An exception ends the
iteration with the state it has reached; the callback is a function that tells,
from the texts it was given before, whether it throws on the next one.
-/

namespace JiuwenCore.Worker

open ContextEngine Models

variable {σ : Type}

/-- The part of the configuration the loop reads. -/
structure LoopConfig where
  useNativeFunctionCalling : Bool := true
  /-- Negative for no limit. -/
  maxIterations : Int32 := 10
  /-- `config_.contextConfig.sessionId`, which parsed tool calls are named after. -/
  configSessionId : Str := []
  /-- `contextEngine->GetSessionId()`. -/
  sessionId : Str := []

/-- What stays the same during a run. -/
structure LoopEnv (σ : Type) where
  config : LoopConfig
  lib : JsonLib
  storage : Storage σ
  callback : List Str → Str → Bool

/-- `handed` keeps the messages given to `AddMessage`, as they are stamped, and
`delivered` the texts given to the callback; the loop reads neither. -/
structure LoopState (σ : Type) where
  engine : Engine σ
  fallbackCounter : Nat := 0
  handed : List Message := []
  delivered : List Str := []

inductive Exit where
  | returned (answer : Str)
  | thrown
  deriving DecidableEq, Repr

/-- The state after a part of the loop, or how and where the loop has ended. -/
abbrev Run (σ α : Type) := Except (LoopState σ × Exit) α

/-! ## Identifiers of tool calls -/

def callId (sessionId : Str) (n : Nat) : Str :=
  lit "call_" ++ (if sessionId = [] then lit "anon" else sessionId) ++ lit "_" ++ toDecimal n

theorem callId_ne_nil (sessionId : Str) (n : Nat) : callId sessionId n ≠ [] := by
  simp [callId, lit]

/-- The next id and the counter after it, which is a 64-bit number. -/
def makeFallbackCallId (counter : Nat) (sessionId : Str) : Str × Nat :=
  let n := (counter + 1) % 2 ^ 64
  (callId sessionId n, n)

/-- The tool calls read from a text. -/
def adoptParsed (sessionId : Str) (counter : Nat) : List ParsedToolCall → List ToolCall × Nat
  | [] => ([], counter)
  | p :: rest =>
      let (id, counter) := makeFallbackCallId counter sessionId
      let (calls, counter) := adoptParsed sessionId counter rest
      let argumentsJson := if p.arguments = [] then lit "\x7b\x7d" else p.arguments
      ({ id := id, name := p.name, argumentsJson := argumentsJson } :: calls, counter)

/-- Gives every call without an id one. -/
def fillMissingIds (sessionId : Str) (counter : Nat) : List ToolCall → List ToolCall × Nat
  | [] => ([], counter)
  | tc :: rest =>
      if tc.id = [] then
        let (id, counter) := makeFallbackCallId counter sessionId
        let (calls, counter) := fillMissingIds sessionId counter rest
        ({ tc with id := id } :: calls, counter)
      else
        let (calls, counter) := fillMissingIds sessionId counter rest
        (tc :: calls, counter)

/-- The tool calls of a response with their ids, and the counter after them. -/
def toolCallsOf (config : LoopConfig) (counter : Nat) (resp : ModelResponse) :
    List ToolCall × Nat :=
  let (calls, counter) :=
    if resp.toolCalls = [] ∧ config.useNativeFunctionCalling = false then
      adoptParsed config.configSessionId counter (extractAllToolCalls resp.content)
    else (resp.toolCalls, counter)
  fillMissingIds config.sessionId counter calls

/-! ## The parts of an iteration -/

def say (env : LoopEnv σ) (text : Str) (st : LoopState σ) : Run σ (LoopState σ) :=
  let (delivered, throws) := emit (some env.callback) st.delivered text
  let st := { st with delivered := delivered }
  if throws then .error (st, .thrown) else .ok st

/-- `AddMessage`. Saving a valid message or handing its event to the sink may throw. -/
def persist (env : LoopEnv σ) (now : Str) (throws : Bool) (message : Message) (st : LoopState σ) :
    Run σ (LoopState σ) :=
  let st := { st with
    engine := addMessage env.storage now message st.engine
    handed := st.handed ++ [stamp now message] }
  if isValidMessage message ∧ throws then .error (st, .thrown) else .ok st

/-- What the model call of an iteration does: the chunks it streams, and its
response unless an exception leaves it. -/
structure ModelCall where
  chunks : List Str := []
  response : Option ModelResponse

structure MemoryPayloadWriteResult where
  succeeded : Bool := false
  offloaded : Bool := false
  uri : Str := []
  replacementContent : Str := []

inductive PayloadWrite where
  | noRuntime
  | written (result : MemoryPayloadWriteResult)
  | thrown

/-- What happens while one tool call is executed. -/
structure ToolRun where
  streamed : List Str := []
  /-- What `ExecuteTool` returns, unless an exception leaves it. -/
  observation : Option Str
  payload : PayloadWrite := .noRuntime
  now : Str := []
  persistThrows : Bool := false

/-- What happens during one iteration; `tools k` belongs to its call number `k`. -/
structure Iteration where
  cancelledBefore : Bool := false
  buildPromptThrows : Bool := false
  model : ModelCall
  cancelledAfter : Bool := false
  now : Str := []
  persistThrows : Bool := false
  tools : Nat → ToolRun

def encodeToolCallTag (lib : JsonLib) (tc : ToolCall) : Option Str :=
  lib.dump (.obj [(lit "arguments", (lib.parse tc.argumentsJson).getD (.str tc.argumentsJson)),
    (lit "id", .str tc.id), (lit "name", .str tc.name)])

/-- The message for an observation, with the payload written elsewhere if it was. -/
def toolMessage (tc : ToolCall) (observation : Str) (payload : PayloadWrite) : Message :=
  let tool : Message :=
    { role := Role.tool, toolCallId := tc.id, toolName := tc.name, content := observation }
  match payload with
  | .written result =>
      if result.offloaded then
        { tool with content := result.replacementContent, payloadRef := result.uri }
      else tool
  | .noRuntime | .thrown => tool

/-- The execution of a tool call up to its message. -/
def runTool (env : LoopEnv σ) (tc : ToolCall) (run : ToolRun) (st : LoopState σ) :
    Run σ (LoopState σ × Message) :=
  match encodeToolCallTag env.lib tc with
  | none => .error (st, .thrown)
  | some tag => do
      let st ← say env (lit "\n[TOOL_CALLS] " ++ tag ++ lit "\n") st
      let st := { st with delivered := st.delivered ++ run.streamed }
      match run.observation with
      | none => .error (st, .thrown)
      | some observation =>
          let st ← say env
            (lit "\n[TOOL_RESPONSE " ++ tc.id ++ lit "] " ++ observation ++ lit "\n") st
          match run.payload with
          | .thrown => .error (st, .thrown)
          | payload => .ok (st, toolMessage tc observation payload)

/-- The loop over the tool calls, from call number `k` on. -/
def runTools (env : LoopEnv σ) (tools : Nat → ToolRun) :
    Nat → List ToolCall → LoopState σ → Run σ (LoopState σ)
  | _, [], st => .ok st
  | k, tc :: rest, st => do
      let (st, tool) ← runTool env tc (tools k) st
      let st ← persist env (tools k).now (tools k).persistThrows tool st
      runTools env tools (k + 1) rest st

/-! ## An iteration -/

def leave (env : LoopEnv σ) (text answer : Str) (st : LoopState σ) : Run σ α := do
  let st ← say env text st
  .error (st, .returned answer)

/-- The request to the model: its response, unless the loop ends before it counts. -/
def askModel (env : LoopEnv σ) (iteration : Nat) (it : Iteration) (st : LoopState σ) :
    Run σ (LoopState σ × ModelResponse) :=
  if it.cancelledBefore then leave env (lit "\n[STATUS] Cancelled\n") [] st
  else if it.buildPromptThrows then .error (st, .thrown)
  else do
    let st ← say env
      (lit "\n[STATUS] Thinking... (Iteration " ++ toDecimal (iteration + 1) ++ lit ")\n") st
    let chunks := (it.model.chunks.filter fun chunk => chunk ≠ []).map (lit "[STREAM]" ++ ·)
    let st := { st with delivered := st.delivered ++ chunks }
    match it.model.response with
    | none => .error (st, .thrown)
    | some resp =>
        if resp.finishReason = lit "error" then
          leave env (lit "\n[STATUS] " ++ resp.content ++ lit "\n") [] st
        else if resp.finishReason = lit "cancelled" ∨ it.cancelledAfter then
          leave env (lit "\n[STATUS] Cancelled\n") [] st
        else .ok (st, resp)

/-- The end of the loop on a response without tool calls. -/
def finish (env : LoopEnv σ) (it : Iteration) (content : Str) (st : LoopState σ) :
    Run σ (LoopState σ) :=
  let finalAnswer := trimStr content
  if finalAnswer = [] then leave env (lit "\n[STATUS] Model returned empty response\n") [] st
  else do
    let asst : Message := { role := Role.assistant, content := finalAnswer }
    let st ← persist env it.now it.persistThrows asst st
    leave env (lit "\n[FINAL] " ++ finalAnswer ++ lit "\n") finalAnswer st

/-- What the loop does with a response. -/
def handleResponse (env : LoopEnv σ) (it : Iteration) (resp : ModelResponse) (st : LoopState σ) :
    Run σ (LoopState σ) :=
  let (calls, counter) := toolCallsOf env.config st.fallbackCounter resp
  let st := { st with fallbackCounter := counter }
  if calls = [] then finish env it resp.content st
  else do
    let asst : Message := { role := Role.assistant, content := resp.content, toolCalls := calls }
    let st ← persist env it.now it.persistThrows asst st
    runTools env it.tools 0 calls st

def runIteration (env : LoopEnv σ) (iteration : Nat) (it : Iteration) (st : LoopState σ) :
    Run σ (LoopState σ) := do
  let (st, resp) ← askModel env iteration it st
  handleResponse env it resp st

/-! ## The loop and the turns -/

/-- The loop from an iteration on, through the iterations listed. It is still
running when all of them are used up. -/
def reactLoop (env : LoopEnv σ) : Nat → List Iteration → LoopState σ → Run σ (LoopState σ)
  | _, [], st => .ok st
  | iteration, it :: rest, st =>
      if env.config.maxIterations < 0 ∨ (iteration : Int) < env.config.maxIterations.toInt then do
        let st ← runIteration env iteration it st
        reactLoop env (iteration + 1) rest st
      else leave env (lit "\n[STATUS] Max iterations reached\n") [] st

/-- One call of `Agent::Invoke`: the query, and the iterations of the loop. -/
structure Turn where
  query : Str
  now : Str := []
  persistThrows : Bool := false
  iterations : List Iteration

def runTurn (env : LoopEnv σ) (turn : Turn) (st : LoopState σ) : Run σ (LoopState σ) := do
  let userMsg : Message := { role := Role.user, content := turn.query }
  let st ← persist env turn.now turn.persistThrows userMsg st
  reactLoop env 0 turn.iterations st

/-- The state a part of the loop leaves behind. -/
def stateOf : Run σ (LoopState σ) → LoopState σ
  | .ok st => st
  | .error (st, _) => st

/-- How a turn has ended; none while it is running. -/
def exitOf : Run σ (LoopState σ) → Option Exit
  | .ok _ => none
  | .error (_, exit) => some exit

/-- The state after some turns, and how each of them has ended. -/
def runTurns (env : LoopEnv σ) : List Turn → LoopState σ → LoopState σ × List (Option Exit)
  | [], st => (st, [])
  | turn :: rest, st =>
      let result := runTurn env turn st
      let (final, exits) := runTurns env rest (stateOf result)
      (final, exitOf result :: exits)

end JiuwenCore.Worker
