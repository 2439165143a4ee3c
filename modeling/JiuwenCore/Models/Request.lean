import JiuwenCore.Message
import JiuwenCore.Json

/-!
# What goes into a request

The schemas of the tools, the part of the configuration the payload is made from,
and the serialisation of tool calls for models that are only prompted.
-/

namespace JiuwenCore.Models

structure ToolSchema where
  name : Str
  description : Str
  parameters : Json

structure ModelConfig where
  modelName : Str := []
  useNativeFunctionCalling : Bool := true

/-- The lines `call.dump() + "\n"` of the calls; arguments that cannot be parsed are
kept as a string. -/
def serializeCalls (lib : JsonLib) : List ToolCall → Option Str
  | [] => some []
  | tc :: rest => do
      let arguments := (lib.parse tc.argumentsJson).getD (.str tc.argumentsJson)
      let call ← lib.dump (.obj [(lit "arguments", arguments), (lit "name", .str tc.name)])
      let calls ← serializeCalls lib rest
      some (call ++ lit "\n" ++ calls)

end JiuwenCore.Models
