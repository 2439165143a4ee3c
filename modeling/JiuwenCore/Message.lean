import JiuwenCore.Text

/-!
# Messages and configuration

The records of `include/model.h` and `include/types.h` that the context engine,
the worker and the models exchange.
-/

namespace JiuwenCore

/-- One tool invocation asked for by the model. -/
structure ToolCall where
  id : Str
  name : Str
  argumentsJson : Str
  deriving DecidableEq, Repr

/-- A conversation message. Only assistant messages carry tool calls, only tool
messages a call id; nothing in the type enforces it. -/
structure Message where
  role : Str
  content : Str := []
  toolCalls : List ToolCall := []
  toolCallId : Str := []
  toolName : Str := []
  payloadRef : Str := []
  timestamp : Str := []
  deriving DecidableEq, Repr

namespace Message

abbrev isUser (m : Message) : Prop := m.role = Role.user
abbrev isAssistant (m : Message) : Prop := m.role = Role.assistant
abbrev isTool (m : Message) : Prop := m.role = Role.tool

/-- The ids of the calls a message carries. -/
def callIds (m : Message) : List Str := m.toolCalls.map (·.id)

/-- An assistant message that asks for tool calls. -/
def opensCalls (m : Message) : Prop := m.isAssistant ∧ m.toolCalls ≠ []

instance (m : Message) : Decidable m.opensCalls := inferInstanceAs (Decidable (_ ∧ _))

end Message

/-- The limits and the identity of one session's context. The limits are C++
`int`s and may be negative. -/
structure ContextConfig where
  maxContextTokens : Int32 := 4096
  maxMessages : Int32 := 50
  sessionId : Str := []

end JiuwenCore
