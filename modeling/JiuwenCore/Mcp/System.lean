import JiuwenCore.Lib.Runs
import JiuwenCore.Mcp.Manager

/-!
# The manager among calls of tools

An operation of `MCPConfigManager` holds the mutex of the manager while it goes from server to
server. Meanwhile turns make tools and call them. What both use are the connections, each with a
mutex of its own that `Connect` and `Disconnect` hold from beginning to end: so each of these is
one step, and calls go on between them.
-/

namespace JiuwenCore.Mcp

/-- What the manager is about to do. -/
inductive Operation where
  | idle
  | stopping (order : List Str) (configs : List (McpServerConfig × Answers))
  | applying (configs : List (McpServerConfig × Answers))
  /-- `StartServerLocked` was entered. -/
  | starting (config : McpServerConfig) (answers : Answers)
      (rest : List (McpServerConfig × Answers))
  /-- `RegisterMCPServer` has disconnected the old server. -/
  | connecting (config : McpServerConfig) (answers : Answers)
      (rest : List (McpServerConfig × Answers))
  | stoppingAll (order : List Nat)

/-- An `MCPTool::Invoke` of a tool with the connection. -/
inductive Call where
  /-- `IsConnected` has returned true. -/
  | checked (server : Nat)
  /-- `CallTool` has found that it has to connect. -/
  | reconnecting (server : Nat)
  deriving DecidableEq, Repr

structure System where
  manager : ManagerState := {}
  operation : Operation := .idle
  /-- The connections of the tools that turns have made. -/
  tools : List Nat := []
  calls : List Call := []
  /-- The connections that the manager has disconnected. -/
  removed : List Nat := []

inductive SystemEvent where
  | load (order : List Str) (configs : List (McpServerConfig × Answers))
  | remove (id : Str)
  | stopAll (order : List Nat)
  /-- The operation of the manager goes on. -/
  | proceed
  | createTool (name : Str)
  | invoke (server : Nat)
  /-- The first test of `CallTool`. -/
  | look (k : Nat)
  | reconnect (k : Nat) (answers : Answers)

namespace System

def stop (id : Str) (y : System) : System :=
  { y with
    manager := y.manager.stopServerLocked id
    removed := (y.manager.servers.lookup id).toList ++ y.removed }

def removeOld (id : Str) (y : System) : System :=
  { y with
    manager := y.manager.removeOldServer id
    removed := (y.manager.mcpServers.lookup id).toList ++ y.removed }

/-- `Apply`, up to its first step that a call can see. -/
def apply (config : McpServerConfig) (answers : Answers)
    (rest : List (McpServerConfig × Answers)) (y : System) : System :=
  let last := y.manager.lastConfigs.lookup config.id
  if config.enabled = false then
    let y := if last.isSome then y.stop config.id else y
    { y with manager := y.manager.record config, operation := .applying rest }
  else if last.any (fun last => !configChanged last config) then
    { y with operation := .applying rest }
  else { y.stop config.id with operation := .starting config answers rest }

def proceed (lib : JsonLib) (y : System) : Option System :=
  match y.operation with
  | .idle => none
  | .stopping [] configs => some { y with operation := .applying configs }
  | .stopping (id :: order) configs =>
      some { y.stop id with operation := .stopping order configs }
  | .applying [] => some { y with operation := .idle }
  | .applying ((config, answers) :: rest) => some (y.apply config answers rest)
  | .starting config answers rest =>
      some { y.removeOld config.id with operation := .connecting config answers rest }
  | .connecting config answers rest =>
      match y.manager.connectServer lib config answers with
      | (.thrown, manager) => some { y with manager := manager, operation := .idle }
      | (.returned, manager) =>
          some { y with
            manager := (manager.publish config.id).record config
            operation := .applying rest }
  | .stoppingAll [] =>
      some { y with
        manager := { y.manager with servers := ∅, lastConfigs := ∅ }
        operation := .idle }
  | .stoppingAll (i :: order) =>
      some { y with
        manager := { y.manager with hub := y.manager.hub.disconnect i }
        removed := i :: y.removed
        operation := .stoppingAll order }

/-- `CallTool` up to its `Connect`; a call that need not connect changes nothing any more. -/
def look (k : Nat) (y : System) : Option System :=
  match y.calls[k]? with
  | some (.checked i) =>
      (y.manager.hub.connections[i]?).map fun c =>
        if c.client = none ∨ c.connected = false then
          { y with calls := y.calls.set k (.reconnecting i) }
        else { y with calls := y.calls.eraseIdx k }
  | _ => none

end System

def systemStep (lib : JsonLib) (y : System) : SystemEvent → Option System
  | .load order configs =>
      match y.operation with
      | .idle =>
          if order.Perm (y.manager.toRemove (configs.map (·.1))) then
            some { y with operation := .stopping order configs }
          else none
      | _ => none
  | .remove id =>
      match y.operation with
      | .idle => some { y.stop id with manager := y.manager.remove id }
      | _ => none
  | .stopAll order =>
      match y.operation with
      | .idle =>
          if order.Perm (y.manager.servers.entries.map (·.2)) then
            some { y with operation := .stoppingAll order }
          else none
      | _ => none
  | .proceed => y.proceed lib
  | .createTool name =>
      match y.manager.hub.registry.find name with
      | some (.mcp tool) => some { y with tools := tool.server :: y.tools }
      | _ => none
  | .invoke server =>
      if server ∈ y.tools then
        (y.manager.hub.connections[server]?).map fun c =>
          if c.connected then { y with calls := y.calls ++ [.checked server] } else y
      else none
  | .look k => y.look k
  | .reconnect k answers =>
      match y.calls[k]? with
      | some (.reconnecting i) =>
          some { y with
            manager := { y.manager with hub := (y.manager.hub.connect lib i answers).2 }
            calls := y.calls.eraseIdx k }
      | _ => none

/-- Only a call that has found its connection closed connects again. -/
theorem systemStep_reconnect {lib : JsonLib} {y y' : System} {k : Nat} {answers : Answers}
    (h : systemStep lib y (.reconnect k answers) = some y') :
    ∃ i, y.calls[k]? = some (.reconnecting i) ∧ y' =
      { y with
        manager := { y.manager with hub := (y.manager.hub.connect lib i answers).2 }
        calls := y.calls.eraseIdx k } := by
  unfold systemStep at h
  dsimp only at h
  split at h
  · rename_i i hcall
    exact ⟨i, hcall, (Option.some.inj h).symm⟩
  · cases h

/-! ## Operations without calls in between -/

def OnlyProceed (_ : System) (e : SystemEvent) : Prop := e = .proceed

/-- Steps of the manager alone, from one operation and state to another. -/
def Proceeds (lib : JsonLib) (y : System) (manager : ManagerState) (operation : Operation) :
    Prop :=
  ∃ removed, Run (systemStep lib) OnlyProceed y
    { y with manager := manager, operation := operation, removed := removed }

variable {lib : JsonLib}

theorem Proceeds.trans {y : System} {manager manager' : ManagerState}
    {operation operation' : Operation} (h : Proceeds lib y manager operation)
    (h' : ∀ removed, Proceeds lib
      { y with manager := manager, operation := operation, removed := removed }
      manager' operation') : Proceeds lib y manager' operation' := by
  obtain ⟨removed, hrun⟩ := h
  obtain ⟨removed', hrun'⟩ := h' removed
  exact ⟨removed', hrun.trans hrun'⟩

/-- One step of the manager. -/
theorem proceeds_of_step {y : System} {manager : ManagerState} {operation : Operation}
    (removed : List Nat) (h : y.proceed lib =
      some { y with manager := manager, operation := operation, removed := removed }) :
    Proceeds lib y manager operation :=
  ⟨removed, .next .start rfl (show systemStep lib y .proceed = _ from h)⟩

/-- `Apply` without calls in between. -/
theorem proceeds_apply (lib : JsonLib) {y : System} {config : McpServerConfig} {answers : Answers}
    {rest : List (McpServerConfig × Answers)}
    (hop : y.operation = .applying ((config, answers) :: rest)) :
    Proceeds lib y (y.manager.apply lib config answers).2
      (if (y.manager.apply lib config answers).1 = .returned then .applying rest else .idle) := by
  have hproceed : y.proceed lib = some (y.apply config answers rest) := by
    rw [System.proceed, hop]
  unfold System.apply at hproceed
  unfold ManagerState.apply
  dsimp only at hproceed ⊢
  by_cases henabled : config.enabled = false
  · rw [if_pos henabled] at hproceed ⊢
    cases hknown : (y.manager.lastConfigs.lookup config.id).isSome with
    | true =>
        rw [hknown] at hproceed
        exact proceeds_of_step _ hproceed
    | false =>
        rw [hknown] at hproceed
        exact proceeds_of_step _ hproceed
  · rw [if_neg henabled] at hproceed ⊢
    cases hsame : (y.manager.lastConfigs.lookup config.id).any
        (fun last => !configChanged last config) with
    | true =>
        rw [hsame] at hproceed
        exact proceeds_of_step _ hproceed
    | false =>
        rw [hsame] at hproceed
        have hstopped : Proceeds lib y (y.manager.stopServerLocked config.id)
            (.starting config answers rest) := proceeds_of_step _ hproceed
        apply hstopped.trans
        intro removed
        have hremoved : Proceeds lib
            { y with
              manager := y.manager.stopServerLocked config.id
              operation := .starting config answers rest
              removed := removed }
            ((y.manager.stopServerLocked config.id).removeOldServer config.id)
            (.connecting config answers rest) := proceeds_of_step _ rfl
        apply hremoved.trans
        intro removed
        -- what `RegisterMCPServer` does after this is one step
        simp only [Bool.false_eq_true, if_false, ManagerState.startServerLocked,
          ManagerState.registerMCPServer]
        apply proceeds_of_step removed
        simp only [System.proceed]
        generalize ((y.manager.stopServerLocked config.id).removeOldServer
          config.id).connectServer lib config answers = e
        rcases e with ⟨_ | _, manager⟩
        · rfl
        · rfl

theorem proceeds_applyAll (configs : List (McpServerConfig × Answers)) (y : System)
    (hop : y.operation = .applying configs) :
    Proceeds lib y (y.manager.applyAll lib configs).2 .idle := by
  induction configs generalizing y with
  | nil =>
      apply proceeds_of_step y.removed
      simp only [System.proceed, hop]
      rfl
  | cons p rest ih =>
      rcases p with ⟨config, answers⟩
      have hfirst := proceeds_apply lib hop
      rw [ManagerState.applyAll]
      generalize y.manager.apply lib config answers = e at hfirst ⊢
      rcases e with ⟨_ | _, manager⟩
      · exact hfirst.trans fun removed => ih _ rfl
      · exact hfirst

/-- Without calls in between an operation that has been begun ends as `Load` does. -/
theorem proceeds_load (order : List Str) (configs : List (McpServerConfig × Answers)) (y : System)
    (hop : y.operation = .stopping order configs) :
    Proceeds lib y (y.manager.load lib order configs).2 .idle := by
  induction order generalizing y with
  | nil =>
      have hfirst : Proceeds lib y y.manager (.applying configs) := by
        apply proceeds_of_step y.removed
        simp only [System.proceed, hop]
      exact hfirst.trans fun removed => proceeds_applyAll configs _ rfl
  | cons id order ih =>
      have hfirst : Proceeds lib y (y.manager.stopServerLocked id) (.stopping order configs) := by
        apply proceeds_of_step (y.stop id).removed
        simp only [System.proceed, hop]
        rfl
      exact hfirst.trans fun removed => ih _ rfl

theorem proceeds_stopAll (order : List Nat) (y : System)
    (hop : y.operation = .stoppingAll order) :
    Proceeds lib y (y.manager.stopAll order) .idle := by
  induction order generalizing y with
  | nil =>
      apply proceeds_of_step y.removed
      simp only [System.proceed, hop]
      rfl
  | cons i order ih =>
      have hfirst : Proceeds lib y { y.manager with hub := y.manager.hub.disconnect i }
          (.stoppingAll order) := by
        apply proceeds_of_step (i :: y.removed)
        simp only [System.proceed, hop]
      exact hfirst.trans fun removed => ih _ rfl

end JiuwenCore.Mcp
