import JiuwenCore.Lib.OrderedMap
import JiuwenCore.Session.ReloadFailure
import JiuwenCore.Storage.Persistence

/-!
# The configuration of an agent

The records of `types.h` and `memory_config.h` with their defaults. An `int` is an `Int32`;
a `double` and a `float` are the bits of theirs.
-/

namespace JiuwenCore.Config

open Persistence (StorageType)
open Reload (AgentWorkMode ToolDisclosureMode)

/-! ## Maps keyed by strings -/

/-- The order of `std::string`: byte by byte. -/
instance (priority := low) : LinearOrder Str where
  le_refl := fun _ => Std.le_refl _
  le_trans := fun _ _ _ => Std.le_trans
  le_antisymm := fun _ _ => Std.le_antisymm
  le_total := fun _ _ => Std.le_total
  toDecidableLE := inferInstance
  lt_iff_le_not_ge := fun _ _ => Std.lt_iff_le_and_not_ge
  compare := fun s t => compareOfLessAndEq s t
  compare_eq_compareOfLessAndEq := fun _ _ => rfl

/-- `std::map<std::string, T>`, and `std::unordered_map` where the order does not show. -/
abbrev StrMap := OrderedMap Str

/-! ## Free parameters -/

/-- `ConfigValue`; `none` is a pointer to no node. -/
inductive ConfigValue where
  | int (i : Int32)
  | float (bits : UInt32)
  | bool (b : Bool)
  | string (s : Str)
  | strings (items : List Str)
  | node (fields : List (Str × ConfigValue))
  | none

namespace ConfigValue

mutual

/-- The fields of every node are in the order of their keys, as in a `std::map`. -/
def ordered : ConfigValue → Bool
  | .node fields => decide ((fields.map (·.1)).Pairwise (· < ·)) && fieldsOrdered fields
  | .int _ | .float _ | .bool _ | .string _ | .strings _ | .none => true

def fieldsOrdered : List (Str × ConfigValue) → Bool
  | [] => true
  | (_, value) :: rest => value.ordered && fieldsOrdered rest

end

end ConfigValue

/-- `ConfigNode`. -/
structure ConfigNode where
  fields : List (Str × ConfigValue) := []
  ordered : (ConfigValue.node fields).ordered = true := by rfl

def ConfigNode.empty : ConfigNode := {}

/-! ## The parts -/

inductive ModelFormatType where
  | openai
  | anthropic
  deriving DecidableEq, Repr

structure RetryPolicy where
  maxRetries : Int32 := 2
  baseDelayMs : Int32 := 400
  maxDelayMs : Int32 := 3000
  withJitter : Bool := true
  deriving DecidableEq, Repr

structure ModelConfig where
  baseUrl : Str := []
  apiKey : Str := []
  modelName : Str := []
  provider : Str := []
  formatType : ModelFormatType := .openai
  useNativeFunctionCalling : Bool := true
  extraParams : ConfigNode := .empty
  retryPolicy : RetryPolicy := {}

inductive PromptResourceType where
  | text
  | filePath
  deriving DecidableEq, Repr

structure PromptResource where
  type : PromptResourceType := .text
  value : Str := []
  deriving DecidableEq, Repr

structure ContextConfig where
  maxContextTokens : Int32 := 4096
  maxMessages : Int32 := 50
  sessionId : Str := []
  storagePath : Str := []
  storageType : StorageType := .jsonFile
  enableSummarization : Bool := false
  deriving DecidableEq, Repr

structure DreamConfig where
  dataBasePath : Str := []
  historyPath : Str := []
  maxBatchSize : Int32 := 20
  maxIterations : Int32 := 10
  maxToolResultChars : Int32 := 16000
  historyEntryPreviewMaxChars : Int32 := 4000
  memoryFileMaxChars : Int32 := 32000
  deriving DecidableEq, Repr

structure MemoryConfig where
  enabled : Bool := true
  mode : Str := lit "sdk"
  provider : Str := lit "builtin.compat"
  dataPath : Str := []
  serverUrl : Str := []
  serverApiKey : Str := []
  serverTimeoutSeconds : Int32 := 10
  serverMaxRetries : Int32 := 2
  serverCircuitThreshold : Int32 := 5
  serverCircuitCooldownSeconds : Int32 := 30
  tokenBudget : Int32 := 4096
  offloadToolResultChars : Int32 := 8000
  enablePayloadOffload : Bool := true
  idleConsolidationSeconds : Int32 := 60
  excludedConsolidationSessionIds : List Str := []
  modelEnabled : Bool := false
  modelFormatType : Str := lit "openai"
  modelBaseUrl : Str := []
  modelApiKey : Str := []
  modelName : Str := []
  modelOrganization : Str := []
  modelAnthropicVersion : Str := lit "2023-06-01"
  modelTimeoutSeconds : Int32 := 60
  modelTemperature : UInt64 := 0
  modelMaxTokens : Int32 := 0
  eventEntityTypes : List Str := [lit "topic", lit "task", lit "project", lit "file"]
  eventEntityTtlDays : Int32 := 7
  extraParams : ConfigNode := .empty

/-! ## The whole -/

structure AgentConfig where
  id : Str := []
  name : Str := []
  description : Str := []
  version : Str := []
  mode : AgentWorkMode := .react
  modelConfig : ModelConfig := {}
  promptTemplates : StrMap PromptResource := OrderedMap.empty
  contextConfig : ContextConfig := {}
  dreamConfig : DreamConfig := {}
  memoryConfig : MemoryConfig := {}
  skillDirectory : Str := []
  maxIterations : Int32 := 10
  dataBasePath : Str := []
  maxConcurrentSessions : Int32 := 3
  defaultTools : List Str := []
  toolDisclosureMode : ToolDisclosureMode := .selective
  toolSchemaTokenBudget : Int32 := 0
  toolCatalogTokenBudget : Int32 := 0
  alwaysOnTools : List Str := []
  mcpServerIds : List Str := []

end JiuwenCore.Config
