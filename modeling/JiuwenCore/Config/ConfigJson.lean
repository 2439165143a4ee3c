import JiuwenCore.Config.ConfigNode

/-!
# Agent configurations as JSON

`agent_config_json.cpp`: what is written of a configuration and how a JSON is merged into
one. The library keeps the members of an object in the order of their keys, so the fields
of a record are listed in that order. A merge that throws leaves nothing to its callers,
so the order it reads the fields in does not show.
-/

namespace JiuwenCore.Config

open ConfigValue (FieldsValid)
open Persistence (StorageType)
open Reload (AgentWorkMode ToolDisclosureMode)

/-! ## The names of the enumerations -/

def workModeToString : AgentWorkMode → Str
  | .react => lit "react"
  | .planAndExecute => lit "plan_and_execute"
  | .workflow => lit "workflow"

def workModeFromString (s : Str) : Option AgentWorkMode :=
  if s = lit "react" then some .react
  else if s = lit "plan_and_execute" then some .planAndExecute
  else if s = lit "workflow" then some .workflow
  else none

def formatTypeToString : ModelFormatType → Str
  | .openai => lit "openai"
  | .anthropic => lit "anthropic"

def formatTypeFromString (s : Str) : Option ModelFormatType :=
  if s = lit "openai" then some .openai
  else if s = lit "anthropic" then some .anthropic
  else none

def promptResourceTypeToString : PromptResourceType → Str
  | .text => lit "TEXT"
  | .filePath => lit "FILE_PATH"

def promptResourceTypeFromString (s : Str) : Option PromptResourceType :=
  if s = lit "TEXT" then some .text
  else if s = lit "FILE_PATH" then some .filePath
  else none

def storageTypeToString : StorageType → Str
  | .memoryOnly => lit "MEMORY_ONLY"
  | .jsonFile => lit "JSON_FILE"
  | .database => lit "DATABASE"

def storageTypeFromString (s : Str) : Option StorageType :=
  if s = lit "MEMORY_ONLY" then some .memoryOnly
  else if s = lit "JSON_FILE" then some .jsonFile
  else if s = lit "DATABASE" then some .database
  else none

def toolDisclosureModeToString : ToolDisclosureMode → Str
  | .disabled => lit "disabled"
  | .progressive => lit "progressive"
  | .selective => lit "selective"
  | .auto => lit "auto"

def toolDisclosureModeFromString (s : Str) : Option ToolDisclosureMode :=
  if s = lit "disabled" then some .disabled
  else if s = lit "progressive" then some .progressive
  else if s = lit "selective" then some .selective
  else if s = lit "auto" then some .auto
  else none

def workMode : Codec AgentWorkMode :=
  .enum workModeToString workModeFromString true
    (by intro a; cases a <;> decide) (by intro a; cases a <;> rfl)

def formatType : Codec ModelFormatType :=
  .enum formatTypeToString formatTypeFromString true
    (by intro a; cases a <;> decide) (by intro a; cases a <;> rfl)

def storageType : Codec StorageType :=
  .enum storageTypeToString storageTypeFromString true
    (by intro a; cases a <;> decide) (by intro a; cases a <;> rfl)

/-- The one name that throws on anything but a string. -/
def toolDisclosureMode : Codec ToolDisclosureMode :=
  .enum toolDisclosureModeToString toolDisclosureModeFromString false
    (by intro a; cases a <;> decide) (by intro a; cases a <;> rfl)

/-! ## The parts -/

variable (lib : JsonLib) (nums : Numbers)

/-- The free parameters: only an object replaces them. -/
def extraParams {σ : Type} (get : σ → ConfigNode) (set : ConfigNode → σ → σ) : Field σ where
  key := lit "extraParams"
  merge j out :=
    if j.isObject then (configNodeFromJson lib nums j).map fun node => set node out
    else some out
  write a := configNodeToJson nums (get a)
  copy a b := set ((get a).back nums.again) b
  valid a := FieldsValid (get a).fields
  back a b := by
    rw [configNodeFromJson_toJson]
    rfl
  regular _ h := configNodeToJson_regular nums h

def retryPolicyRecord : Record RetryPolicy where
  fields := [
    .value (.int lib) (lit "baseDelayMs") (·.baseDelayMs) fun x out => { out with baseDelayMs := x },
    .value (.int lib) (lit "maxDelayMs") (·.maxDelayMs) fun x out => { out with maxDelayMs := x },
    .value (.int lib) (lit "maxRetries") (·.maxRetries) fun x out => { out with maxRetries := x },
    .value .bool (lit "withJitter") (·.withJitter) fun x out => { out with withJitter := x }]
  sorted := of_decide_eq_true rfl
  text := of_decide_eq_true rfl

/-- `MergeModelConfig` and `ModelConfigToJson`. -/
def modelConfigRecord : Record ModelConfig where
  fields := [
    .value .string (lit "apiKey") (·.apiKey) fun x out => { out with apiKey := x },
    .value .string (lit "baseUrl") (·.baseUrl) fun x out => { out with baseUrl := x },
    extraParams lib nums (·.extraParams) fun x out => { out with extraParams := x },
    .value formatType (lit "formatType") (·.formatType) fun x out => { out with formatType := x },
    .value .string (lit "modelName") (·.modelName) fun x out => { out with modelName := x },
    .value .string (lit "provider") (·.provider) fun x out => { out with provider := x },
    .record (retryPolicyRecord lib) (lit "retryPolicy") (·.retryPolicy)
      fun x out => { out with retryPolicy := x },
    .value .bool (lit "useNativeFunctionCalling") (·.useNativeFunctionCalling)
      fun x out => { out with useNativeFunctionCalling := x }]
  sorted := of_decide_eq_true rfl
  text := of_decide_eq_true rfl

/-- `MergeContextConfig` and `ContextConfigToJson`. -/
def contextConfigRecord : Record ContextConfig where
  fields := [
    .value .bool (lit "enableSummarization") (·.enableSummarization)
      fun x out => { out with enableSummarization := x },
    .value (.int lib) (lit "maxContextTokens") (·.maxContextTokens)
      fun x out => { out with maxContextTokens := x },
    .value (.int lib) (lit "maxMessages") (·.maxMessages) fun x out => { out with maxMessages := x },
    .value .string (lit "sessionId") (·.sessionId) fun x out => { out with sessionId := x },
    .value .string (lit "storagePath") (·.storagePath) fun x out => { out with storagePath := x },
    .value storageType (lit "storageType") (·.storageType)
      fun x out => { out with storageType := x }]
  sorted := of_decide_eq_true rfl
  text := of_decide_eq_true rfl

/-- `MergeDreamConfig` and `DreamConfigToJson`. -/
def dreamConfigRecord : Record DreamConfig where
  fields := [
    .value .string (lit "dataBasePath") (·.dataBasePath) fun x out => { out with dataBasePath := x },
    .value (.int lib) (lit "historyEntryPreviewMaxChars") (·.historyEntryPreviewMaxChars)
      fun x out => { out with historyEntryPreviewMaxChars := x },
    .value .string (lit "historyPath") (·.historyPath) fun x out => { out with historyPath := x },
    .value (.int lib) (lit "maxBatchSize") (·.maxBatchSize)
      fun x out => { out with maxBatchSize := x },
    .value (.int lib) (lit "maxIterations") (·.maxIterations)
      fun x out => { out with maxIterations := x },
    .value (.int lib) (lit "maxToolResultChars") (·.maxToolResultChars)
      fun x out => { out with maxToolResultChars := x },
    .value (.int lib) (lit "memoryFileMaxChars") (·.memoryFileMaxChars)
      fun x out => { out with memoryFileMaxChars := x }]
  sorted := of_decide_eq_true rfl
  text := of_decide_eq_true rfl

/-- The setting that has moved here: without it, the JSON of the context is looked up. -/
def idleConsolidationSeconds (contextConfigJson : Json) : Field MemoryConfig :=
  { Field.value (.int lib) (lit "idleConsolidationSeconds") (·.idleConsolidationSeconds)
      fun x (out : MemoryConfig) => { out with idleConsolidationSeconds := x } with
    absent := fun out =>
      match contextConfigJson.member (lit "idleConsolidationSeconds") with
      | some v => (v.getInt lib).map fun x => { out with idleConsolidationSeconds := x }
      | none => some out }

/-- `MergeMemoryConfig` and `MemoryConfigToJson`. -/
def memoryConfigRecord (contextConfigJson : Json) : Record MemoryConfig where
  fields := [
    .value .string (lit "dataPath") (·.dataPath) fun x out => { out with dataPath := x },
    .value .bool (lit "enablePayloadOffload") (·.enablePayloadOffload)
      fun x out => { out with enablePayloadOffload := x },
    .value .bool (lit "enabled") (·.enabled) fun x out => { out with enabled := x },
    .value (.int lib) (lit "eventEntityTtlDays") (·.eventEntityTtlDays)
      fun x out => { out with eventEntityTtlDays := x },
    .value .strings (lit "eventEntityTypes") (·.eventEntityTypes)
      fun x out => { out with eventEntityTypes := x },
    .value .strings (lit "excludedConsolidationSessionIds") (·.excludedConsolidationSessionIds)
      fun x out => { out with excludedConsolidationSessionIds := x },
    extraParams lib nums (·.extraParams) fun x out => { out with extraParams := x },
    idleConsolidationSeconds lib contextConfigJson,
    .value .string (lit "mode") (·.mode) fun x out => { out with mode := x },
    .value .string (lit "modelAnthropicVersion") (·.modelAnthropicVersion)
      fun x out => { out with modelAnthropicVersion := x },
    .value .string (lit "modelApiKey") (·.modelApiKey) fun x out => { out with modelApiKey := x },
    .value .string (lit "modelBaseUrl") (·.modelBaseUrl) fun x out => { out with modelBaseUrl := x },
    .value .bool (lit "modelEnabled") (·.modelEnabled) fun x out => { out with modelEnabled := x },
    .value .string (lit "modelFormatType") (·.modelFormatType)
      fun x out => { out with modelFormatType := x },
    .value (.int lib) (lit "modelMaxTokens") (·.modelMaxTokens)
      fun x out => { out with modelMaxTokens := x },
    .value .string (lit "modelName") (·.modelName) fun x out => { out with modelName := x },
    .value .string (lit "modelOrganization") (·.modelOrganization)
      fun x out => { out with modelOrganization := x },
    .value (.double nums.ofInt) (lit "modelTemperature") (·.modelTemperature)
      fun x out => { out with modelTemperature := x },
    .value (.int lib) (lit "modelTimeoutSeconds") (·.modelTimeoutSeconds)
      fun x out => { out with modelTimeoutSeconds := x },
    .value (.int lib) (lit "offloadToolResultChars") (·.offloadToolResultChars)
      fun x out => { out with offloadToolResultChars := x },
    .value .string (lit "provider") (·.provider) fun x out => { out with provider := x },
    .value .string (lit "serverApiKey") (·.serverApiKey) fun x out => { out with serverApiKey := x },
    .value (.int lib) (lit "serverCircuitCooldownSeconds") (·.serverCircuitCooldownSeconds)
      fun x out => { out with serverCircuitCooldownSeconds := x },
    .value (.int lib) (lit "serverCircuitThreshold") (·.serverCircuitThreshold)
      fun x out => { out with serverCircuitThreshold := x },
    .value (.int lib) (lit "serverMaxRetries") (·.serverMaxRetries)
      fun x out => { out with serverMaxRetries := x },
    .value (.int lib) (lit "serverTimeoutSeconds") (·.serverTimeoutSeconds)
      fun x out => { out with serverTimeoutSeconds := x },
    .value .string (lit "serverUrl") (·.serverUrl) fun x out => { out with serverUrl := x },
    .value (.int lib) (lit "tokenBudget") (·.tokenBudget) fun x out => { out with tokenBudget := x }]
  sorted := of_decide_eq_true rfl
  text := of_decide_eq_true rfl

/-! ## Prompt templates -/

def promptResourceToJson (pr : PromptResource) : Json :=
  .obj [(lit "type", .str (promptResourceTypeToString pr.type)), (lit "value", .str pr.value)]

/-- What an entry says, if it is a string or an object. -/
def promptResourceFromJson : Json → Option PromptResource
  | .str s => some { type := .text, value := s }
  | .obj members =>
      some {
        type :=
          (((Json.obj members).stringMember (lit "type")).bind promptResourceTypeFromString).getD
            .text
        value := ((Json.obj members).stringMember (lit "value")).getD [] }
  | _ => none

theorem promptResourceFromJson_toJson (pr : PromptResource) :
    promptResourceFromJson (promptResourceToJson pr) = some pr := by
  rcases pr with ⟨type, value⟩
  cases type <;> rfl

def promptTemplatesToJson (m : StrMap PromptResource) : Json :=
  .obj (m.entries.map fun entry => (entry.1, promptResourceToJson entry.2))

/-- A listed name is overwritten, another one kept. -/
def mergePromptTemplates (j : Json) (out : StrMap PromptResource) : StrMap PromptResource :=
  match j with
  | .obj members => members.foldl (fun out entry =>
      match promptResourceFromJson entry.2 with
      | some pr => out.insert entry.1 pr
      | none => out) out
  | _ => out

theorem mergePromptTemplates_toJson (m out : StrMap PromptResource) :
    mergePromptTemplates (promptTemplatesToJson m) out = m.overlay out := by
  rw [promptTemplatesToJson, mergePromptTemplates, List.foldl_map]
  simp only [promptResourceFromJson_toJson]
  rfl

theorem promptTemplatesToJson_regular {m : StrMap PromptResource}
    (h : ∀ entry ∈ m.entries, Utf8.Text entry.1 ∧ Utf8.Text entry.2.value) :
    (promptTemplatesToJson m).regular = true ∧ (promptTemplatesToJson m).Utf8Only := by
  have hresource : ∀ entry ∈ m.entries, (promptResourceToJson entry.2).regular = true ∧
      Utf8.Text entry.1 ∧ (promptResourceToJson entry.2).Utf8Only := by
    intro entry hentry
    rcases entry with ⟨key, ⟨type, value⟩⟩
    have htype : Utf8.Text (promptResourceTypeToString type) := by cases type <;> decide
    refine ⟨by cases type <;> rfl, (h _ hentry).1, ?_⟩
    rw [promptResourceToJson, Json.utf8Only_obj]
    simp only [List.forall_mem_cons, Json.utf8Only_str]
    exact ⟨⟨by decide, htype⟩, ⟨by decide, (h _ hentry).2⟩, by simp⟩
  rw [promptTemplatesToJson, Json.regular_obj, Json.utf8Only_obj, List.map_map]
  refine ⟨⟨m.sorted, ?_⟩, ?_⟩
  · rw [List.forall_mem_map]
    exact fun entry hentry => (hresource entry hentry).1
  · rw [List.forall_mem_map]
    exact fun entry hentry => (hresource entry hentry).2

def promptTemplates : Field AgentConfig where
  key := lit "promptTemplates"
  merge j out := some { out with promptTemplates := mergePromptTemplates j out.promptTemplates }
  write a := promptTemplatesToJson a.promptTemplates
  copy a b := { b with promptTemplates := a.promptTemplates.overlay b.promptTemplates }
  valid a := ∀ entry ∈ a.promptTemplates.entries, Utf8.Text entry.1 ∧ Utf8.Text entry.2.value
  back a b := by rw [mergePromptTemplates_toJson]
  regular _ h := promptTemplatesToJson_regular h

/-! ## The whole -/

/-- The configuration, merged beside the JSON of a context. -/
def agentConfigRecord (contextConfigJson : Json) : Record AgentConfig where
  fields := [
    .value .strings (lit "alwaysOnTools") (·.alwaysOnTools)
      fun x out => { out with alwaysOnTools := x },
    .record (contextConfigRecord lib) (lit "contextConfig") (·.contextConfig)
      fun x out => { out with contextConfig := x },
    .value .string (lit "dataBasePath") (·.dataBasePath) fun x out => { out with dataBasePath := x },
    .value .strings (lit "defaultTools") (·.defaultTools)
      fun x out => { out with defaultTools := x },
    .value .string (lit "description") (·.description) fun x out => { out with description := x },
    .record (dreamConfigRecord lib) (lit "dreamConfig") (·.dreamConfig)
      fun x out => { out with dreamConfig := x },
    .value .string (lit "id") (·.id) fun x out => { out with id := x },
    .value (.int lib) (lit "maxConcurrentSessions") (·.maxConcurrentSessions)
      fun x out => { out with maxConcurrentSessions := x },
    .value (.int lib) (lit "maxIterations") (·.maxIterations)
      fun x out => { out with maxIterations := x },
    .value .strings (lit "mcpServerIds") (·.mcpServerIds)
      fun x out => { out with mcpServerIds := x },
    .record (memoryConfigRecord lib nums contextConfigJson) (lit "memoryConfig") (·.memoryConfig)
      fun x out => { out with memoryConfig := x },
    .value workMode (lit "mode") (·.mode) fun x out => { out with mode := x },
    .record (modelConfigRecord lib nums) (lit "modelConfig") (·.modelConfig)
      fun x out => { out with modelConfig := x },
    .value .string (lit "name") (·.name) fun x out => { out with name := x },
    promptTemplates,
    .value .string (lit "skillDirectory") (·.skillDirectory)
      fun x out => { out with skillDirectory := x },
    .value (.int lib) (lit "toolCatalogTokenBudget") (·.toolCatalogTokenBudget)
      fun x out => { out with toolCatalogTokenBudget := x },
    .value toolDisclosureMode (lit "toolDisclosureMode") (·.toolDisclosureMode)
      fun x out => { out with toolDisclosureMode := x },
    .value (.int lib) (lit "toolSchemaTokenBudget") (·.toolSchemaTokenBudget)
      fun x out => { out with toolSchemaTokenBudget := x },
    .value .string (lit "version") (·.version) fun x out => { out with version := x }]
  sorted := of_decide_eq_true rfl
  text := of_decide_eq_true rfl

/-- `MergeAgentConfigFromJson`, `none` where it throws. -/
def mergeAgentConfigFromJson (j : Json) (out : AgentConfig) : Option AgentConfig :=
  (agentConfigRecord lib nums ((j.member (lit "contextConfig")).getD (.obj []))).merge j out

def agentConfigToJson (cfg : AgentConfig) : Json :=
  (agentConfigRecord lib nums (.obj [])).write cfg

/-! ## What is written is read back -/

/-- The first configuration with the prompt templates of the second one under the names it
does not use itself; `f` is how numbers come back. -/
def AgentConfig.onto (f : UInt32 → UInt32) (cfg base : AgentConfig) : AgentConfig :=
  { cfg with
    modelConfig := { cfg.modelConfig with extraParams := cfg.modelConfig.extraParams.back f }
    memoryConfig := { cfg.memoryConfig with extraParams := cfg.memoryConfig.extraParams.back f }
    promptTemplates := cfg.promptTemplates.overlay base.promptTemplates }

theorem contextConfig_copy (a b : ContextConfig) : (contextConfigRecord lib).copy a b = a := rfl

theorem dreamConfig_copy (a b : DreamConfig) : (dreamConfigRecord lib).copy a b = a := rfl

theorem modelConfig_copy (a b : ModelConfig) : (modelConfigRecord lib nums).copy a b =
    { a with extraParams := a.extraParams.back nums.again } := rfl

theorem memoryConfig_copy (contextConfigJson : Json) (a b : MemoryConfig) :
    (memoryConfigRecord lib nums contextConfigJson).copy a b =
      { a with extraParams := a.extraParams.back nums.again } := by
  simp only [Record.copy, memoryConfigRecord, copyFields, Field.value, extraParams,
    idleConsolidationSeconds]

theorem agentConfig_copy (contextConfigJson : Json) (cfg base : AgentConfig) :
    (agentConfigRecord lib nums contextConfigJson).copy cfg base = cfg.onto nums.again base := by
  rw [Record.copy]
  simp only [agentConfigRecord, copyFields, Field.value, Field.record, promptTemplates,
    contextConfig_copy, dreamConfig_copy, memoryConfig_copy, modelConfig_copy]
  rfl

/-- What is written does not depend on what is merged. -/
theorem memoryConfig_write (contextConfigJson : Json) (a : MemoryConfig) :
    (memoryConfigRecord lib nums contextConfigJson).write a =
      (memoryConfigRecord lib nums (.obj [])).write a := by
  simp only [Record.write, memoryConfigRecord, List.map_cons, idleConsolidationSeconds]

theorem agentConfig_write (contextConfigJson : Json) (cfg : AgentConfig) :
    (agentConfigRecord lib nums contextConfigJson).write cfg = agentConfigToJson lib nums cfg := by
  rw [agentConfigToJson, Record.write, Record.write]
  simp only [agentConfigRecord, List.map_cons, Field.record,
    memoryConfig_write lib nums contextConfigJson]

/-- A configuration that is written and merged into any other one overrides it. -/
theorem mergeAgentConfigFromJson_toJson (cfg base : AgentConfig) :
    mergeAgentConfigFromJson lib nums (agentConfigToJson lib nums cfg) base =
      some (cfg.onto nums.again base) := by
  rw [mergeAgentConfigFromJson]
  generalize ((agentConfigToJson lib nums cfg).member (lit "contextConfig")).getD (.obj []) = ctx
  rw [← agentConfig_write lib nums ctx, Record.merge_write, agentConfig_copy]

/-- The strings are UTF-8 and the numbers finite. -/
def AgentConfig.Valid (cfg : AgentConfig) : Prop :=
  (agentConfigRecord lib nums (.obj [])).Valid cfg

theorem agentConfigToJson_regular {cfg : AgentConfig} (h : cfg.Valid lib nums) :
    (agentConfigToJson lib nums cfg).regular = true ∧ (agentConfigToJson lib nums cfg).Utf8Only :=
  Record.write_regular _ h

/-- The configuration with the prompt templates of a base under the names it does not use, and
an empty node in the place of no node. -/
def AgentConfig.restored (cfg base : AgentConfig) : AgentConfig := cfg.onto (fun bits => bits) base

/-- A template of the base stays under a name that is not used. -/
theorem AgentConfig.restored_promptTemplates (cfg base : AgentConfig) (name : Str) :
    (cfg.restored base).promptTemplates.get? name =
      (cfg.promptTemplates.get? name).or (base.promptTemplates.get? name) :=
  OrderedMap.get?_overlay cfg.promptTemplates base.promptTemplates name

/-- A valid configuration that is written and merged keeps its numbers. -/
theorem AgentConfig.onto_again {cfg : AgentConfig} (h : cfg.Valid lib nums) (base : AgentConfig) :
    cfg.onto nums.again base = cfg.restored base := by
  have hmodel : (modelConfigRecord lib nums).Valid cfg.modelConfig :=
    h (.record (modelConfigRecord lib nums) (lit "modelConfig") (·.modelConfig)
      fun x out => { out with modelConfig := x }) (by
        simp only [agentConfigRecord, List.mem_cons, true_or, or_true])
  have hmemory : (memoryConfigRecord lib nums (.obj [])).Valid cfg.memoryConfig :=
    h (.record (memoryConfigRecord lib nums (.obj [])) (lit "memoryConfig") (·.memoryConfig)
      fun x out => { out with memoryConfig := x }) (by
        simp only [agentConfigRecord, List.mem_cons, true_or, or_true])
  have hmodelParams : FieldsValid cfg.modelConfig.extraParams.fields :=
    hmodel (extraParams lib nums (·.extraParams) fun x out => { out with extraParams := x }) (by
      simp only [modelConfigRecord, List.mem_cons, true_or, or_true])
  have hmemoryParams : FieldsValid cfg.memoryConfig.extraParams.fields :=
    hmemory (extraParams lib nums (·.extraParams) fun x out => { out with extraParams := x }) (by
      simp only [memoryConfigRecord, List.mem_cons, true_or, or_true])
  rw [restored, onto, onto, ConfigNode.back_again nums hmodelParams,
    ConfigNode.back_again nums hmemoryParams]
  rfl

end JiuwenCore.Config
