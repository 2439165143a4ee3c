import JiuwenCore.Mcp.Connection

/-!
# The configuration manager

`MCPConfigManager` compares a list of configurations with those it was given before, and starts
and stops servers through the registry of `ResourceManager`. What a `Connect` throws leaves the
whole `Load` where it is.
-/

namespace JiuwenCore.Mcp

/-! ## `RegisterMCPServer` -/

def slash : UInt8 := 0x2F

def endpointUrl (config : McpServerConfig) : Str :=
  if config.url = [] then config.endpoint
  else if config.endpoint = [] then config.url
  else if config.url.getLast? ≠ some slash ∧ config.endpoint.head? ≠ some slash then
    config.url ++ [slash] ++ config.endpoint
  else config.url ++ config.endpoint

/-- The endpoint of a configuration, `none` for one with neither a URL nor a command. -/
def endpointConfig (config : McpServerConfig) : Option MCPEndpointConfig :=
  let url := endpointUrl config
  if url ≠ [] then
    some {
      url := url
      transportType :=
        if config.type = lit "sse" ∨ config.type = [] ∧ lit "/sse" <:+: url then .sse
        else .streamableHttp
      headers := config.headers
      connectTimeoutSeconds := config.connectTimeoutSeconds
      requestTimeoutSeconds := config.requestTimeoutSeconds }
  else if config.command ≠ [] then
    some {
      transportType := .stdio
      command := config.command
      args := config.args
      env := config.env }
  else none

/-- The connection that `RegisterMCPServer` makes. -/
def newConnection (config : McpServerConfig) (endpoint : MCPEndpointConfig) : Connection where
  name := config.id
  config := endpoint
  source := config

/-- The records of `ResourceManager` and of `MCPConfigManager`. -/
structure ManagerState where
  hub : Hub := {}
  mcpServers : AList (fun _ : Str => Nat) := ∅
  servers : AList (fun _ : Str => Nat) := ∅
  lastConfigs : AList (fun _ : Str => McpServerConfig) := ∅

namespace ManagerState

def removeOldServer (id : Str) (s : ManagerState) : ManagerState :=
  match s.mcpServers.lookup id with
  | some i => { s with mcpServers := s.mcpServers.erase id, hub := s.hub.disconnect i }
  | none => s

/-- `RegisterMCPServer` once the old server is gone. -/
def connectServer (lib : JsonLib) (config : McpServerConfig) (answers : Answers)
    (s : ManagerState) : Outcome × ManagerState :=
  match endpointConfig config with
  | none => (.returned, s)
  | some endpoint =>
      let i := s.hub.connections.length
      match (s.hub.create (newConnection config endpoint)).connect lib i answers with
      | (.thrown, hub) => (.thrown, { s with hub := hub })
      | (.returned, hub) =>
          (.returned, { s with hub := hub, mcpServers := s.mcpServers.insert config.id i })

def registerMCPServer (lib : JsonLib) (config : McpServerConfig) (answers : Answers)
    (s : ManagerState) : Outcome × ManagerState :=
  (s.removeOldServer config.id).connectServer lib config answers

/-! ## `MCPConfigManager` -/

/-- What `StartServerLocked` does with the server that is registered. -/
def publish (id : Str) (s : ManagerState) : ManagerState :=
  match s.mcpServers.lookup id with
  | some i => { s with servers := s.servers.insert id i }
  | none => s

def startServerLocked (lib : JsonLib) (config : McpServerConfig) (answers : Answers)
    (s : ManagerState) : Outcome × ManagerState :=
  match s.registerMCPServer lib config answers with
  | (.thrown, s) => (.thrown, s)
  | (.returned, s) => (.returned, s.publish config.id)

def stopServerLocked (id : Str) (s : ManagerState) : ManagerState :=
  match s.servers.lookup id with
  | some i =>
      { s with
        hub := s.hub.disconnect i
        servers := s.servers.erase id
        mcpServers := s.mcpServers.erase id }
  | none => s

end ManagerState

/-- The differences that `ConfigChanged` looks for. -/
def configChanged (lhs rhs : McpServerConfig) : Bool :=
  lhs.name ≠ rhs.name || lhs.description ≠ rhs.description || lhs.enabled ≠ rhs.enabled ||
    lhs.type ≠ rhs.type || lhs.url ≠ rhs.url || lhs.endpoint ≠ rhs.endpoint ||
    lhs.command ≠ rhs.command || lhs.args ≠ rhs.args || lhs.env ≠ rhs.env ||
    lhs.headers ≠ rhs.headers

theorem configChanged_self (config : McpServerConfig) : configChanged config config = false := by
  simp [configChanged]

namespace ManagerState

def record (config : McpServerConfig) (s : ManagerState) : ManagerState :=
  { s with lastConfigs := s.lastConfigs.insert config.id config }

def apply (lib : JsonLib) (config : McpServerConfig) (answers : Answers) (s : ManagerState) :
    Outcome × ManagerState :=
  let last := s.lastConfigs.lookup config.id
  if config.enabled = false then
    (.returned, (if last.isSome then s.stopServerLocked config.id else s).record config)
  else if last.any (fun last => !configChanged last config) then (.returned, s)
  else
    match (s.stopServerLocked config.id).startServerLocked lib config answers with
    | (.thrown, s) => (.thrown, s)
    | (.returned, s) => (.returned, s.record config)

/-- The loop of `Load` over the configurations, each with what its server would answer. -/
def applyAll (lib : JsonLib) : List (McpServerConfig × Answers) → ManagerState →
    Outcome × ManagerState
  | [], s => (.returned, s)
  | (config, answers) :: rest, s =>
      match s.apply lib config answers with
      | (.thrown, s) => (.thrown, s)
      | (.returned, s) => applyAll lib rest s

/-- The known ids without a configuration in the list. -/
def toRemove (configs : List McpServerConfig) (s : ManagerState) : List Str :=
  s.lastConfigs.keys.filter fun id => ¬ ∃ config ∈ configs, config.id = id

/-- `Load`, which stops the servers to remove in the order of a hash map. -/
def load (lib : JsonLib) (order : List Str) (configs : List (McpServerConfig × Answers))
    (s : ManagerState) : Outcome × ManagerState :=
  (order.foldl (fun s id => s.stopServerLocked id) s).applyAll lib configs

def remove (id : Str) (s : ManagerState) : ManagerState :=
  let s := s.stopServerLocked id
  { s with lastConfigs := s.lastConfigs.erase id }

/-- `StopAll`, which goes through the servers in the order of a hash map. -/
def stopAll (order : List Nat) (s : ManagerState) : ManagerState :=
  { s with
    hub := order.foldl (fun hub i => hub.disconnect i) s.hub
    servers := ∅
    lastConfigs := ∅ }

end ManagerState

/-! ## Connections after an operation -/

namespace Hub

/-- Connections stay, with their configurations, and none is connected again. -/
def Ages (h h' : Hub) : Prop :=
  ∀ (i : Nat) (c : Connection), h.connections[i]? = some c →
    ∃ c', h'.connections[i]? = some c' ∧ c'.source = c.source ∧
      (c'.connected = true → c.connected = true)

variable {h h' h'' : Hub}

theorem Ages.refl (h : Hub) : h.Ages h := fun _ c hc => ⟨c, hc, rfl, id⟩

theorem Ages.trans (hages : h.Ages h') (hages' : h'.Ages h'') : h.Ages h'' := by
  intro i c hc
  obtain ⟨c', hc', hsource, hon⟩ := hages i c hc
  obtain ⟨c'', hc'', hsource', hon'⟩ := hages' i c' hc'
  exact ⟨c'', hc'', hsource'.trans hsource, hon ∘ hon'⟩

theorem ages_disconnect (h : Hub) (i : Nat) : h.Ages (h.disconnect i) := by
  intro j c hc
  refine ⟨if j = i then (c.disconnect h.registry).1 else c, ?_, ?_, ?_⟩
  · rw [getElem?_disconnect, hc]
    rfl
  · split <;> rfl
  · split
    · exact nofun
    · exact id

theorem ages_append (h : Hub) (registry : Registry) (c : Connection) :
    h.Ages ⟨registry, h.connections ++ [c]⟩ := by
  intro i c' hc'
  exact ⟨c', getElem?_join hc' c, rfl, id⟩

end Hub

namespace ManagerState

theorem lookup_erase_eq (m : AList (fun _ : Str => Nat)) (id k : Str) :
    (m.erase id).lookup k = if k = id then none else m.lookup k := by
  by_cases hk : k = id
  · rw [hk, if_pos rfl, AList.lookup_erase]
  · rw [if_neg hk, AList.lookup_erase_ne hk]

theorem lookup_of_lookup_erase {m : AList (fun _ : Str => Nat)} {id k : Str} {i : Nat}
    (h : (m.erase id).lookup k = some i) : m.lookup k = some i := by
  rw [lookup_erase_eq] at h
  exact (Option.ite_none_left_eq_some.mp h).2

variable {lib : JsonLib} {config : McpServerConfig} {answers : Answers} {s : ManagerState}

theorem lookup_stopServerLocked (s : ManagerState) (id : Str) :
    (s.stopServerLocked id).servers.lookup id = none := by
  unfold stopServerLocked
  cases hi : s.servers.lookup id with
  | none => exact hi
  | some i => exact AList.lookup_erase _ _

theorem stopServerLocked_lastConfigs (s : ManagerState) (id : Str) :
    (s.stopServerLocked id).lastConfigs = s.lastConfigs := by
  unfold stopServerLocked
  split <;> rfl

theorem removeOldServer_lastConfigs (s : ManagerState) (id : Str) :
    (s.removeOldServer id).lastConfigs = s.lastConfigs := by
  unfold removeOldServer
  split <;> rfl

theorem lookup_removeOldServer (s : ManagerState) (id : Str) :
    (s.removeOldServer id).mcpServers.lookup id = none := by
  unfold removeOldServer
  cases hi : s.mcpServers.lookup id with
  | none => exact hi
  | some i => exact AList.lookup_erase _ _

theorem removeOldServer_servers (s : ManagerState) (id : Str) :
    (s.removeOldServer id).servers = s.servers := by
  unfold removeOldServer
  split <;> rfl

theorem ages_stopServerLocked (s : ManagerState) (id : Str) :
    s.hub.Ages (s.stopServerLocked id).hub := by
  unfold stopServerLocked
  cases s.servers.lookup id with
  | none => exact Hub.Ages.refl _
  | some i => exact Hub.ages_disconnect _ i

theorem ages_removeOldServer (s : ManagerState) (id : Str) :
    s.hub.Ages (s.removeOldServer id).hub := by
  unfold removeOldServer
  cases s.mcpServers.lookup id with
  | none => exact Hub.Ages.refl _
  | some i => exact Hub.ages_disconnect _ i

/-- A server is registered if its `Connect` does not throw. -/
theorem connectServer_eq (lib : JsonLib) (answers : Answers) (s : ManagerState)
    {endpoint : MCPEndpointConfig} (h : endpointConfig config = some endpoint) :
    s.connectServer lib config answers =
      let i := s.hub.connections.length
      let e := (newConnection config endpoint).connect lib i answers s.hub.registry
      (e.outcome, { s with
        hub := ⟨e.registry, s.hub.connections ++ [e.connection]⟩
        mcpServers :=
          match e.outcome with
          | .returned => s.mcpServers.insert config.id i
          | .thrown => s.mcpServers }) := by
  unfold connectServer
  simp only [h, Hub.create_connect]
  generalize Connection.connect lib _ answers (newConnection config endpoint) _ = e
  rcases e with ⟨_ | _, c, r⟩ <;> rfl

theorem connectServer_none (lib : JsonLib) (answers : Answers) (s : ManagerState)
    (h : endpointConfig config = none) : s.connectServer lib config answers = (.returned, s) := by
  simp only [connectServer, h]

theorem publish_hub (id : Str) (s : ManagerState) : (s.publish id).hub = s.hub := by
  unfold publish
  split <;> rfl

theorem publish_lastConfigs (id : Str) (s : ManagerState) :
    (s.publish id).lastConfigs = s.lastConfigs := by
  unfold publish
  split <;> rfl

theorem ages_registerMCPServer (lib : JsonLib) (config : McpServerConfig) (answers : Answers)
    (s : ManagerState) : s.hub.Ages (s.registerMCPServer lib config answers).2.hub := by
  apply (ages_removeOldServer s config.id).trans
  unfold registerMCPServer
  cases hendpoint : endpointConfig config with
  | none =>
      rw [connectServer_none lib answers _ hendpoint]
      exact Hub.Ages.refl _
  | some endpoint =>
      rw [connectServer_eq lib answers _ hendpoint]
      exact Hub.ages_append _ _ _

theorem ages_startServerLocked (lib : JsonLib) (config : McpServerConfig) (answers : Answers)
    (s : ManagerState) : s.hub.Ages (s.startServerLocked lib config answers).2.hub := by
  have hages := ages_registerMCPServer lib config answers s
  unfold startServerLocked
  generalize s.registerMCPServer lib config answers = registered at hages ⊢
  rcases registered with ⟨_ | _, s'⟩
  · dsimp only at hages ⊢
    rwa [publish_hub]
  · exact hages

theorem ages_apply (lib : JsonLib) (config : McpServerConfig) (answers : Answers)
    (s : ManagerState) : s.hub.Ages (s.apply lib config answers).2.hub := by
  unfold apply
  dsimp only
  split
  · split
    · exact ages_stopServerLocked s config.id
    · exact Hub.Ages.refl _
  · split
    · exact Hub.Ages.refl _
    · apply (ages_stopServerLocked s config.id).trans
      have hages := ages_startServerLocked lib config answers (s.stopServerLocked config.id)
      split
      · rename_i hstart
        rwa [hstart] at hages
      · rename_i hstart
        rwa [hstart] at hages

theorem ages_applyAll (configs : List (McpServerConfig × Answers)) (s : ManagerState) :
    s.hub.Ages (s.applyAll lib configs).2.hub := by
  induction configs generalizing s with
  | nil => exact Hub.Ages.refl _
  | cons p rest ih =>
      rcases p with ⟨config, answers⟩
      have hfirst := ages_apply lib config answers s
      rw [applyAll]
      split
      · rename_i happly
        rwa [happly] at hfirst
      · rename_i s' happly
        rw [happly] at hfirst
        exact hfirst.trans (ih s')

end ManagerState

end JiuwenCore.Mcp
