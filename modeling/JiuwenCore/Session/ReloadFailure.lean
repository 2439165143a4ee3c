import JiuwenCore.Lib.Throwing
import JiuwenCore.Models.Request
import JiuwenCore.Session.Registry
import Mathlib.Data.Finset.Insert
import Mathlib.Data.Finset.Union

/-!
# A reload that fails

`ReloadAgent` builds the new agent before it touches the manager. On the way it makes that
agent's base path the one of the process and registers `tool_search` anew; an exception
takes neither back.
-/

namespace JiuwenCore.Reload

open Session Throwing

/-! ## Surroundings -/

/-- `AgentWorkMode`. -/
inductive AgentWorkMode where
  | react
  | planAndExecute
  | workflow
  deriving DecidableEq, Repr

/-- `ToolDisclosureMode`. -/
inductive ToolDisclosureMode where
  | disabled
  | progressive
  | selective
  | auto
  deriving DecidableEq, Repr

/-- What the construction of an agent reads besides what the manager reads. -/
structure WorkerConfig where
  mode : AgentWorkMode := .react
  skillDirectory : Str := []
  toolDisclosureMode : ToolDisclosureMode := .selective
  alwaysOnTools : List Str := []
  defaultTools : List Str := []
  deriving DecidableEq, Repr

structure AgentConfig extends Session.AgentConfig, WorkerConfig

/-- The tools an `AgentWorker` knows. -/
structure Worker where
  toolNames : List Str := []
  ownedMcpTools : List Str := []
  deriving DecidableEq, Repr

/-- A factory: the one of `tool_search` captures the tools that are always on, others go
by a number. -/
inductive SessionToolFactory where
  | toolSearch (alwaysOnNames : Finset Str)
  | other (number : Nat)

/-- The tools of the process; `ToolSchema` is what the model sees of one. -/
structure ResourceManager where
  toolFactories : List Str := []
  sessionToolFactories : Str → Option SessionToolFactory := fun _ => none
  mcpToolNames : List Str := []
  promptSchemas : Str → Option Str := fun _ => none
  functionCallSchemas : Str → Option Models.ToolSchema := fun _ => none

/-- The manager with its active agent, and what all agents share. -/
structure Process where
  manager : Session.State := {}
  /-- The rest of the configuration the manager keeps. -/
  workerConfig : WorkerConfig := {}
  /-- The worker of the active agent. -/
  worker : Worker := {}
  /-- The base path of `GetDataDir()`. -/
  dataDir : Str := lit "./data"
  resources : ResourceManager := {}

/-! ## Exceptions -/

/-- Where the construction of an agent may throw, in the order of the source. -/
inductive Operation where
  | copyConfig
  | createMemoryDirectory
  | createSessionsDirectory
  | assignBasePath
  | ensureDirectory
  | loadSkills
  | createAgentWorker
  | createConsolidator
  | startThread
  | computeAlwaysOn
  | addTools
  | syncMcpTools
  deriving DecidableEq, Repr

/-- The exceptions of the surroundings: memory, the file system, threads. -/
abbrev Faults := Operation → Option Str

abbrev Build := Throwing Str Process

/-! ## Construction -/

/-- `DataDir::SetBasePath`. -/
def setBasePath (faults : Faults) (path : Str) : Build Unit := do
  attempt (faults .assignBasePath)
  modify fun p => { p with dataDir := path }
  attempt (faults .ensureDirectory)

/-- `CreateAgentWorker`. -/
def createAgentWorker (faults : Faults) (mode : AgentWorkMode) : Build Worker := do
  match mode with
  | .react => attempt (faults .createAgentWorker)
  | .planAndExecute | .workflow =>
      throw (lit "AgentWorkMode PLAN_AND_EXECUTE / WORKFLOW are not implemented in this build")
  pure {}

/-- `Agent::Agent`. -/
def constructAgent (faults : Faults) (config : AgentConfig) : Build Worker := do
  let dataPath := basePathOf config.dataBasePath
  attempt (faults .createMemoryDirectory)
  attempt (faults .createSessionsDirectory)
  setBasePath faults dataPath
  if config.skillDirectory ≠ [] then attempt (faults .loadSkills)
  let worker ← createAgentWorker faults config.mode
  attempt (faults .createConsolidator)
  attempt (faults .startThread)
  pure worker

def metaToolNames : Finset Str := {lit "tool_search", lit "skill_search"}

def computeAlwaysOnFor (config : AgentConfig) : Finset Str :=
  metaToolNames ∪ config.alwaysOnTools.toFinset

namespace ResourceManager

def hasTool (rm : ResourceManager) (name : Str) : Bool := rm.toolFactories.contains name

def hasSessionTool (rm : ResourceManager) (name : Str) : Bool :=
  (rm.sessionToolFactories name).isSome

/-- `RegisterSessionTool`. -/
def registerSessionTool (name : Str) (factory : SessionToolFactory) (rm : ResourceManager) :
    ResourceManager :=
  { rm with
    sessionToolFactories := Function.update rm.sessionToolFactories name (some factory)
    promptSchemas := Function.update rm.promptSchemas name none
    functionCallSchemas := Function.update rm.functionCallSchemas name none }

end ResourceManager

namespace Worker

/-- Adds the names that are missing. -/
def addNames (names toolNames : List Str) : List Str :=
  names.foldl (fun toolNames name => if name ∈ toolNames then toolNames else toolNames ++ [name])
    toolNames

/-- `AddTools`, which skips unknown tools. -/
def addTools (rm : ResourceManager) (names : List Str) (worker : Worker) : Worker :=
  let valid := names.filter fun name => rm.hasTool name || rm.hasSessionTool name
  { worker with toolNames := addNames valid worker.toolNames }

/-- `SyncMcpTools`. -/
def syncMcpTools (rm : ResourceManager) (worker : Worker) : Worker :=
  let toAdd := rm.mcpToolNames.filter (· ∉ worker.ownedMcpTools)
  let toRemove := worker.ownedMcpTools.filter (· ∉ rm.mcpToolNames)
  { toolNames := (addNames toAdd worker.toolNames).filter (· ∉ toRemove)
    ownedMcpTools := (worker.ownedMcpTools ++ toAdd).filter (· ∉ toRemove) }

end Worker

/-- The modes that register `tool_search`. -/
def AgentConfig.Discloses (config : AgentConfig) : Prop :=
  config.toolDisclosureMode = .progressive ∨ config.toolDisclosureMode = .selective ∨
    config.toolDisclosureMode = .auto

instance (config : AgentConfig) : Decidable config.Discloses :=
  inferInstanceAs (Decidable (_ ∨ _ ∨ _))

/-- The registration of `tool_search`. -/
def registerToolSearch (config : AgentConfig) : ResourceManager → ResourceManager :=
  .registerSessionTool (lit "tool_search") (.toolSearch (computeAlwaysOnFor config))

/-- The configuration the new agent gets: without a base path, that of the manager. -/
def effectiveConfig (newConfig : AgentConfig) (p : Process) : AgentConfig :=
  if newConfig.dataBasePath = [] then
    { newConfig with dataBasePath := p.manager.config.dataBasePath }
  else newConfig

def discloseTools (faults : Faults) (config : AgentConfig) : Build Unit := do
  if config.Discloses then
    attempt (faults .computeAlwaysOn)
    modify fun p => { p with resources := registerToolSearch config p.resources }

def wireTools (faults : Faults) (config : AgentConfig) (worker : Worker) : Build Worker := do
  let mut worker := worker
  if config.defaultTools ≠ [] then
    attempt (faults .addTools)
    worker := worker.addTools (← get).resources config.defaultTools
  attempt (faults .syncMcpTools)
  pure (worker.syncMcpTools (← get).resources)

/-- What `ReloadAgent` does in its `try` block. -/
def buildAgent (faults : Faults) (newConfig : AgentConfig) : Build Worker := do
  attempt (faults .copyConfig)
  let effective := effectiveConfig newConfig (← get)
  let worker ← constructAgent faults effective
  discloseTools faults effective
  wireTools faults effective worker

/-- The swap under `sessionMutex_`. -/
def swapAgent (newConfig : AgentConfig) (worker : Worker) (p : Process) : Process :=
  { p with
    manager := Session.reloadAgent newConfig.toAgentConfig true p.manager
    workerConfig := newConfig.toWorkerConfig
    worker := worker }

/-- What `ReloadAgent` returns and puts into `errorOut`. -/
structure Answer where
  reloaded : Bool
  errorOut : Option Str
  deriving DecidableEq, Repr

/-- `ReloadAgent`. -/
def reloadAgent (faults : Faults) (newConfig : AgentConfig) (p : Process) : Answer × Process :=
  if p.manager.initialized then
    match (buildAgent faults newConfig).run p with
    | (.ok worker, p) => (⟨true, none⟩, swapAgent newConfig worker p)
    | (.error what, p) => (⟨false, some what⟩, p)
  else (⟨false, some (lit "SessionManager not initialized")⟩, p)

/-! ## What a construction leaves -/

/-- What an operation throws in a construction with this configuration. -/
def throwOf (faults : Faults) (config : AgentConfig) : Operation → Option Str
  | .loadSkills => if config.skillDirectory ≠ [] then faults .loadSkills else none
  | .createAgentWorker =>
      if config.mode = .react then faults .createAgentWorker
      else some (lit
        "AgentWorkMode PLAN_AND_EXECUTE / WORKFLOW are not implemented in this build")
  | .computeAlwaysOn => if config.Discloses then faults .computeAlwaysOn else none
  | .addTools => if config.defaultTools ≠ [] then faults .addTools else none
  | operation => faults operation

def beforeBasePath : List Operation :=
  [.copyConfig, .createMemoryDirectory, .createSessionsDirectory, .assignBasePath]

def beforeTools : List Operation :=
  [.ensureDirectory, .loadSkills, .createAgentWorker, .createConsolidator, .startThread]

def beforeToolSearch : List Operation := beforeBasePath ++ (beforeTools ++ [.computeAlwaysOn])

/-- One of the operations throws. -/
def Stops (faults : Faults) (config : AgentConfig) (operations : List Operation) : Prop :=
  ∃ operation ∈ operations, (throwOf faults config operation).isSome

instance (faults : Faults) (config : AgentConfig) (operations : List Operation) :
    Decidable (Stops faults config operations) :=
  inferInstanceAs (Decidable (∃ operation ∈ operations, _))

def leftByBuild (faults : Faults) (newConfig : AgentConfig) (p : Process) : Process :=
  let effective := effectiveConfig newConfig p
  { p with
    dataDir := if Stops faults effective beforeBasePath then p.dataDir
      else basePathOf effective.dataBasePath
    resources := if Stops faults effective beforeToolSearch ∨ ¬ effective.Discloses then p.resources
      else registerToolSearch effective p.resources }

theorem stops_append {faults : Faults} {config : AgentConfig} {first rest : List Operation} :
    Stops faults config (first ++ rest) ↔
      Stops faults config first ∨ Stops faults config rest := by
  simp only [Stops, List.mem_append, or_and_right, exists_or]

theorem any_throwOf (faults : Faults) (config : AgentConfig) (operations : List Operation) :
    ((operations.map (throwOf faults config)).any (·.isSome)) =
      decide (Stops faults config operations) := by
  rw [Bool.eq_iff_iff, decide_eq_true_iff, List.any_map, List.any_eq_true]
  rfl

theorem constructAgent_eq (faults : Faults) (config : AgentConfig) :
    constructAgent faults config = (do
      attemptAll ([.createMemoryDirectory, .createSessionsDirectory, .assignBasePath].map
        (throwOf faults config))
      modify fun p => { p with dataDir := basePathOf config.dataBasePath }
      attemptAll (beforeTools.map (throwOf faults config))
      pure {}) := by
  unfold constructAgent setBasePath createAgentWorker
  simp only [beforeTools, attemptAll, List.map_cons, List.map_nil, bind_assoc, throwOf, pure_bind]
  by_cases hskills : config.skillDirectory = []
  · cases hmode : config.mode <;> simp [attempt, hskills]
  · cases hmode : config.mode <;> simp [attempt, hskills]

/-- What the constructor leaves, and what follows it finds. -/
theorem state_constructAgent_bind {α : Type} (faults : Faults) (config : AgentConfig)
    (k : Worker → Build α) (p : Process) :
    ((constructAgent faults config >>= k).run p).2 =
      if Stops faults config [.createMemoryDirectory, .createSessionsDirectory, .assignBasePath]
      then p
      else if Stops faults config beforeTools then
        { p with dataDir := basePathOf config.dataBasePath }
      else ((k {}).run { p with dataDir := basePathOf config.dataBasePath }).2 := by
  rw [constructAgent_eq, bind_assoc, state_attemptAll_bind, any_throwOf]
  simp only [decide_eq_true_eq]
  refine if_congr Iff.rfl rfl ?_
  rw [bind_assoc, run_bind_ok (x := ()) rfl, bind_assoc, state_attemptAll_bind, any_throwOf]
  simp only [decide_eq_true_eq]
  rfl

theorem silent_wireTools (faults : Faults) (config : AgentConfig) (worker : Worker) :
    Silent (wireTools faults config worker) := by
  have hsync : ∀ worker : Worker, Silent (do
      attempt (faults .syncMcpTools)
      pure (worker.syncMcpTools (← get).resources) : Build Worker) := fun worker =>
    (silent_attempt _).bind fun _ => silent_get.bind fun _ => silent_pure _
  unfold wireTools
  dsimp only
  split
  · exact (silent_attempt _).bind fun _ => silent_get.bind fun _ => hsync _
  · exact hsync worker

theorem state_discloseTools_bind {α : Type} (faults : Faults) (config : AgentConfig)
    {k : Unit → Build α} (hk : ∀ x, Silent (k x)) (p : Process) :
    ((discloseTools faults config >>= k).run p).2 =
      if Stops faults config [.computeAlwaysOn] ∨ ¬ config.Discloses then p
      else { p with resources := registerToolSearch config p.resources } := by
  have hstops : Stops faults config [.computeAlwaysOn] ↔
      config.Discloses ∧ (faults .computeAlwaysOn).isSome := by
    by_cases h : config.Discloses <;> simp [Stops, throwOf, h]
  by_cases hdiscloses : config.Discloses
  · have hrun : ((modify fun p => { p with resources := registerToolSearch config p.resources }) >>=
        k).run p = (k ()).run { p with resources := registerToolSearch config p.resources } :=
      run_bind_ok (x := ()) rfl
    rw [discloseTools, if_pos hdiscloses, bind_assoc, state_attempt_bind, hrun, hk () _]
    exact if_congr (by simp [hstops, hdiscloses]) rfl rfl
  · rw [discloseTools, if_neg hdiscloses, if_pos (Or.inr hdiscloses)]
    exact hk () p

/-- What the `try` block leaves, whether it ends or not. -/
theorem state_buildAgent (faults : Faults) (newConfig : AgentConfig) (p : Process) :
    ((buildAgent faults newConfig).run p).2 = leftByBuild faults newConfig p := by
  have hget : ∀ k : Process → Build Worker, (get >>= k).run p = (k p).run p :=
    fun k => run_bind_ok (x := p) rfl
  have hfirst : Stops faults (effectiveConfig newConfig p) beforeBasePath ↔
      (faults .copyConfig).isSome ∨ Stops faults (effectiveConfig newConfig p)
        [.createMemoryDirectory, .createSessionsDirectory, .assignBasePath] := by
    simp [Stops, beforeBasePath, throwOf]
  rw [buildAgent, state_attempt_bind, hget, state_constructAgent_bind,
    state_discloseTools_bind faults _ fun _ => silent_wireTools faults _ _]
  rw [leftByBuild, beforeToolSearch]
  simp only [stops_append, hfirst]
  by_cases hcopy : (faults .copyConfig).isSome
  · simp [hcopy]
  by_cases hearly : Stops faults (effectiveConfig newConfig p)
      [.createMemoryDirectory, .createSessionsDirectory, .assignBasePath]
  · simp [hearly]
  by_cases hlate : Stops faults (effectiveConfig newConfig p) beforeTools
  · simp [hcopy, hearly, hlate]
  · simp only [hcopy, hearly, hlate, if_false, false_or, Bool.false_eq_true]
    split <;> rfl

/-! ## Failures -/

/-- The registration of `tool_search` has nothing to do. -/
def Registered (config : AgentConfig) (rm : ResourceManager) : Prop :=
  rm.sessionToolFactories (lit "tool_search") = some (.toolSearch (computeAlwaysOnFor config)) ∧
    rm.promptSchemas (lit "tool_search") = none ∧
    rm.functionCallSchemas (lit "tool_search") = none

theorem registerToolSearch_eq_self_iff {config : AgentConfig} {rm : ResourceManager} :
    registerToolSearch config rm = rm ↔ Registered config rm := by
  constructor
  · intro h
    rw [← h]
    simp [Registered, registerToolSearch, ResourceManager.registerSessionTool]
  · rintro ⟨hfactory, hprompt, hcall⟩
    rw [registerToolSearch, ResourceManager.registerSessionTool, ← hfactory, ← hprompt, ← hcall]
    simp only [Function.update_eq_self]

/-- The new agent's base path is that of the process, or an exception comes before it is
taken over. -/
def KeepsDataDir (faults : Faults) (config : AgentConfig) (p : Process) : Prop :=
  Stops faults config beforeBasePath ∨ basePathOf config.dataBasePath = p.dataDir

/-- Nothing is registered: an exception comes before it, the mode does not ask for it, or
there is nothing to do. -/
def KeepsTools (faults : Faults) (config : AgentConfig) (p : Process) : Prop :=
  Stops faults config beforeToolSearch ∨ ¬ config.Discloses ∨ Registered config p.resources

theorem reloadAgent_of_initialized {faults : Faults} {newConfig : AgentConfig} {p : Process}
    (hready : p.manager.initialized) (h : (reloadAgent faults newConfig p).1.reloaded = false) :
    (reloadAgent faults newConfig p).2 = leftByBuild faults newConfig p := by
  rw [← state_buildAgent]
  rw [reloadAgent, if_pos hready] at h ⊢
  split at h
  · cases h
  · rename_i hrun
    rw [hrun]

/-- A reload that fails leaves the configuration, the active agent and the sessions. -/
theorem reload_keeps_manager {faults : Faults} {newConfig : AgentConfig} {p : Process}
    (h : (reloadAgent faults newConfig p).1.reloaded = false) :
    (reloadAgent faults newConfig p).2.manager = p.manager ∧
      (reloadAgent faults newConfig p).2.workerConfig = p.workerConfig ∧
      (reloadAgent faults newConfig p).2.worker = p.worker := by
  by_cases hready : p.manager.initialized
  · rw [reloadAgent_of_initialized hready h]
    exact ⟨rfl, rfl, rfl⟩
  · rw [reloadAgent, if_neg hready]
    exact ⟨rfl, rfl, rfl⟩

theorem leftByBuild_eq_self_iff {faults : Faults} {newConfig : AgentConfig} {p : Process} :
    leftByBuild faults newConfig p = p ↔
      KeepsDataDir faults (effectiveConfig newConfig p) p ∧
        KeepsTools faults (effectiveConfig newConfig p) p := by
  have hparts : leftByBuild faults newConfig p = p ↔
      (leftByBuild faults newConfig p).dataDir = p.dataDir ∧
        (leftByBuild faults newConfig p).resources = p.resources := by
    constructor
    · intro h
      exact ⟨congrArg Process.dataDir h, congrArg Process.resources h⟩
    · rintro ⟨hdataDir, hresources⟩
      calc leftByBuild faults newConfig p
          = { p with
              dataDir := (leftByBuild faults newConfig p).dataDir
              resources := (leftByBuild faults newConfig p).resources } := rfl
        _ = p := by rw [hdataDir, hresources]
  rw [hparts, leftByBuild, KeepsDataDir, KeepsTools]
  dsimp only
  rw [ite_eq_left_iff, ite_eq_left_iff, registerToolSearch_eq_self_iff, ← or_iff_not_imp_left,
    ← or_iff_not_imp_left, or_assoc]

/-- A reload that fails leaves everything as it was if and only if the manager was not ready,
or neither the base path of the process nor the registration of `tool_search` was reached
with something to change. -/
theorem reload_atomic_iff (faults : Faults) (newConfig : AgentConfig) (p : Process)
    (h : (reloadAgent faults newConfig p).1.reloaded = false) :
    (reloadAgent faults newConfig p).2 = p ↔
      (p.manager.initialized →
        KeepsDataDir faults (effectiveConfig newConfig p) p ∧
          KeepsTools faults (effectiveConfig newConfig p) p) := by
  by_cases hready : p.manager.initialized
  · rw [reloadAgent_of_initialized hready h, leftByBuild_eq_self_iff]
    exact ⟨fun hkept _ => hkept, fun hkept => hkept hready⟩
  · rw [reloadAgent, if_neg hready]
    exact iff_of_true rfl fun hready' => absurd hready' hready

/-- A manager whose sessions are in `/data`. -/
def readyManager : Session.State where
  initialized := true
  config := { dataBasePath := lit "/data" }
  agent := some 0
  agentsMade := 1

/-- The work mode is not implemented, and the base path is another one. -/
theorem reload_moves_dataDir : ¬ ∀ faults newConfig p,
    (reloadAgent faults newConfig p).1.reloaded = false →
      (reloadAgent faults newConfig p).2 = p := by
  intro h
  have hkept := h (fun _ => none)
    { dataBasePath := lit "/new", mode := .planAndExecute }
    { manager := readyManager, dataDir := lit "/data" } (by decide +kernel)
  exact absurd (congrArg Process.dataDir hkept) (by decide +kernel)

/-- The same reload with the base path the process has. -/
theorem reload_atomic_here :
    (reloadAgent (fun _ => none) { mode := .planAndExecute }
      { manager := readyManager, dataDir := lit "/data" }).2 =
      { manager := readyManager, dataDir := lit "/data" } :=
  (reload_atomic_iff (fun _ => none) { mode := .planAndExecute }
    { manager := readyManager, dataDir := lit "/data" } (by decide +kernel)).mpr
    fun _ => ⟨Or.inr (by decide +kernel), Or.inl (by decide +kernel)⟩

end JiuwenCore.Reload
