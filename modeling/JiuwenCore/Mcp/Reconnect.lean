import JiuwenCore.JsonReader
import JiuwenCore.Mcp.Frame
import JiuwenCore.Mcp.Reconcile
import JiuwenCore.Mcp.System

/-!
# Servers that come back

`MCPTool::Invoke` asks whether the server is connected before `CallTool` asks again, and connects
where it finds that it is not. If the manager has disconnected the server in between, nothing of
the manager leads to the connection any more. So the tools in the registry are those of the
servers of the manager, and no server comes back that was removed, exactly as long as such a
`Connect` is not answered, and no start throws behind a tool.
-/

namespace JiuwenCore.Mcp

namespace Connection.Asked

/-- Connecting registers nothing and does not come to its end. -/
def Barren : Asked → Prop
  | .refused | .failed => True
  | .listed tools => ∃ tool ∈ tools.head?, ¬ SchemaReadable tool.inputSchema

instance : (asked : Asked) → Decidable asked.Barren
  | .refused | .failed => inferInstanceAs (Decidable True)
  | .listed tools =>
      inferInstanceAs (Decidable (∃ tool ∈ tools.head?, ¬ SchemaReadable tool.inputSchema))

/-- Connecting registers all tools or none. -/
def Whole : Asked → Prop
  | .refused | .failed => True
  | .listed tools => (∀ tool ∈ tools, SchemaReadable tool.inputSchema) ∨ (listed tools).Barren

instance : (asked : Asked) → Decidable asked.Whole
  | .refused | .failed => inferInstanceAs (Decidable True)
  | .listed _ => inferInstanceAs (Decidable (_ ∨ _))

end Connection.Asked

/-- The connection that a call is about to connect. -/
def Call.reconnects : Call → Option Nat
  | .reconnecting server => some server
  | .checked _ => none

/-- The server that the manager is about to connect. -/
def Operation.connects : Operation → Option (McpServerConfig × Answers)
  | .connecting config answers _ => some (config, answers)
  | _ => none

/-- A call that connects to a server is answered by nothing that it could register, and a server
that is started does not throw behind a tool. -/
def Good (lib : JsonLib) (y : System) : SystemEvent → Prop
  | .reconnect k answers => ∀ i ∈ (y.calls[k]?).bind Call.reconnects,
      ∀ c ∈ y.manager.hub.connections[i]?, (c.ask lib answers).Barren
  | .proceed => ∀ p ∈ y.operation.connects,
      ∀ endpoint ∈ endpointConfig p.1, ((newConnection p.1 endpoint).ask lib p.2).Whole
  | .load _ _ | .remove _ | .stopAll _ | .createTool _ | .invoke _ | .look _ => True

instance (lib : JsonLib) (y : System) : (e : SystemEvent) → Decidable (Good lib y e)
  | .reconnect k _ =>
      inferInstanceAs (Decidable (∀ i ∈ (y.calls[k]?).bind Call.reconnects,
        ∀ c ∈ y.manager.hub.connections[i]?, _))
  | .proceed =>
      inferInstanceAs (Decidable (∀ p ∈ y.operation.connects,
        ∀ endpoint ∈ endpointConfig p.1, _))
  | .load _ _ | .remove _ | .stopAll _ | .createTool _ | .invoke _ | .look _ =>
      inferInstanceAs (Decidable True)

/-- While the manager does nothing every MCP tool calls one of its servers; what it has
disconnected stays so, and has no tools. -/
structure System.Safe (y : System) : Prop where
  owned : y.operation = .idle → ∀ name ∈ y.manager.hub.registry.mcpToolNames,
    ∃ id i, y.manager.servers.lookup id = some i ∧ y.manager.hub.registry.Bound i name
  gone : ∀ i ∈ y.removed, ∀ c ∈ y.manager.hub.connections[i]?, c.connected = false
  tools : ∀ i ∈ y.removed, ∀ name, ¬ y.manager.hub.registry.Bound i name

/-! ## What the records lead to -/

/-- The tools in the registry are those of the servers of the manager. -/
structure Wiring (m : ManagerState) (removed : List Nat) : Prop where
  consistent : m.hub.registry.Consistent
  bound : ∀ i name, m.hub.registry.Bound i name → i ∉ removed ∧
    (∃ id, m.servers.lookup id = some i) ∧
      ∃ c, m.hub.connections[i]? = some c ∧ name ∈ c.availableTools.map (·.name)
  off : ∀ i ∈ removed, ∃ c, m.hub.connections[i]? = some c ∧ c.connected = false
  client : ∀ (i : Nat) (c : Connection), m.hub.connections[i]? = some c → c.connected = true →
    c.client.isSome = true
  servers : ∀ id i, m.servers.lookup id = some i → i < m.hub.connections.length
  records : ∀ id i, m.mcpServers.lookup id = some i → i < m.hub.connections.length

/-- What the manager relies on where it is. -/
def Operation.Fits (m : ManagerState) : Operation → Prop
  | .starting config _ _ => m.servers.lookup config.id = none
  | .connecting config _ _ =>
      m.servers.lookup config.id = none ∧ m.mcpServers.lookup config.id = none
  | .stoppingAll order => (∀ i ∈ order, i < m.hub.connections.length) ∧
      ∀ id i, m.servers.lookup id = some i →
        i ∈ order ∨ ∀ name, ¬ m.hub.registry.Bound i name
  | .idle | .stopping _ _ | .applying _ => True

/-- A call holds a server that is connected or was removed. -/
def Call.Covered (h : Hub) (removed : List Nat) : Call → Prop
  | .checked i => i ∈ removed ∨ ∃ c, h.connections[i]? = some c ∧ c.connected = true
  | .reconnecting i => i ∈ removed

structure System.Ordered (y : System) : Prop where
  wiring : Wiring y.manager y.removed
  operation : y.operation.Fits y.manager
  calls : ∀ call ∈ y.calls, call.Covered y.manager.hub y.removed

/-- Before the first operation. -/
structure System.New (y : System) : Prop where
  hub : y.manager.hub.New
  mcpServers : y.manager.mcpServers = ∅
  servers : y.manager.servers = ∅
  operation : y.operation = .idle
  calls : y.calls = []
  removed : y.removed = []

variable {lib : JsonLib} {m : ManagerState} {removed : List Nat} {i j : Nat} {c : Connection}
  {name id : Str} {y y' : System}

theorem System.New.ordered (h : y.New) : y.Ordered := by
  have hunbound : ∀ i name, ¬ y.manager.hub.registry.Bound i name := by
    rintro i name ⟨hname, _⟩
    rw [h.hub.names] at hname
    exact Finset.notMem_empty name hname
  refine ⟨⟨h.hub.consistent, fun i name hbound => ?_, ?_, fun i c hc => ?_, ?_, ?_⟩, ?_, ?_⟩
  · exact absurd hbound (hunbound i name)
  · rw [h.removed]
    exact nofun
  · rw [h.hub.connections] at hc
    cases hc
  · rw [h.servers]
    exact nofun
  · rw [h.mcpServers]
    exact nofun
  · rw [h.operation]
    trivial
  · rw [h.calls]
    exact nofun

theorem System.Ordered.safe (h : y.Ordered) : y.Safe := by
  refine ⟨fun _ name hname => ?_, fun i hi c hc => ?_, fun i hi name hbound => ?_⟩
  · obtain ⟨factory, i, hfind, hserver⟩ := (h.wiring.consistent name).mp hname
    have hbound : y.manager.hub.registry.Bound i name := ⟨hname, factory, hfind, hserver⟩
    obtain ⟨_, ⟨id, hid⟩, _⟩ := h.wiring.bound i name hbound
    exact ⟨id, i, hid, hbound⟩
  · obtain ⟨c', hc', hoff⟩ := h.wiring.off i hi
    rw [Option.mem_def, hc'] at hc
    cases hc
    exact hoff
  · exact (h.wiring.bound i name hbound).1 hi

/-! ## Disconnecting -/

theorem Hub.bound_disconnect {h : Hub} (hcons : h.registry.Consistent)
    (hc : h.connections[i]? = some c) :
    (h.disconnect i).registry.Consistent ∧ ∀ j name, (h.disconnect i).registry.Bound j name →
      h.registry.Bound j name ∧ name ∉ c.availableTools.map (·.name) := by
  rw [disconnect_of_getElem? hc]
  have hcons' := hcons.unregisterAll (c.availableTools.map (·.name))
  refine ⟨hcons', fun j name hbound => ?_⟩
  rw [hcons.bound_iff]
  rw [hcons'.bound_iff] at hbound
  obtain ⟨factory, hfind, hserver⟩ := hbound
  rw [Registry.find_unregisterAll] at hfind
  obtain ⟨hname, hfind⟩ := Option.ite_none_left_eq_some.mp hfind
  exact ⟨⟨factory, hfind, hserver⟩, hname⟩

/-- The manager disconnects a connection and drops its records of it. -/
theorem Wiring.disconnect (h : Wiring m removed) (hi : i < m.hub.connections.length)
    {servers mcpServers : AList (fun _ : Str => Nat)}
    (lastConfigs : AList (fun _ : Str => McpServerConfig))
    (hservers : ∀ id j, servers.lookup id = some j → m.servers.lookup id = some j)
    (hkept : ∀ id j, m.servers.lookup id = some j → j ≠ i → servers.lookup id = some j)
    (hrecords : ∀ id j, mcpServers.lookup id = some j → m.mcpServers.lookup id = some j) :
    Wiring ⟨m.hub.disconnect i, mcpServers, servers, lastConfigs⟩ (i :: removed) := by
  obtain ⟨c, hc⟩ : ∃ c, m.hub.connections[i]? = some c := ⟨_, List.getElem?_eq_getElem hi⟩
  have hlength : (m.hub.disconnect i).connections.length = m.hub.connections.length := by
    rw [Hub.disconnect_of_getElem? hc, List.length_set]
  obtain ⟨hcons, hbound⟩ := Hub.bound_disconnect h.consistent hc
  refine ⟨hcons, fun j name hj => ?_, fun j hj => ?_, fun j c' hc' hon => ?_, ?_, ?_⟩
  · obtain ⟨hbefore, hname⟩ := hbound j name hj
    obtain ⟨hstays, ⟨id, hid⟩, c', hc', hname'⟩ := h.bound j name hbefore
    have hne : j ≠ i := by
      rintro rfl
      rw [hc] at hc'
      cases hc'
      exact hname hname'
    refine ⟨?_, ⟨id, hkept id j hid hne⟩, c', ?_, hname'⟩
    · rw [List.mem_cons, not_or]
      exact ⟨hne, hstays⟩
    · rw [Hub.getElem?_disconnect, hc', Option.map_some, if_neg hne]
  · rcases List.mem_cons.mp hj with rfl | hj
    · refine ⟨_, by rw [Hub.getElem?_disconnect, hc, Option.map_some], ?_⟩
      rw [if_pos rfl]
      rfl
    · obtain ⟨c', hc', hoff⟩ := h.off j hj
      refine ⟨_, by rw [Hub.getElem?_disconnect, hc', Option.map_some], ?_⟩
      split
      · rfl
      · exact hoff
  · rw [Hub.getElem?_disconnect, Option.map_eq_some_iff] at hc'
    obtain ⟨d, hd, rfl⟩ := hc'
    split at hon
    · cases hon
    · rename_i hne
      rw [if_neg hne]
      exact h.client j d hd hon
  · intro id j hj
    rw [hlength]
    exact h.servers id j (hservers id j hj)
  · intro id j hj
    rw [hlength]
    exact h.records id j (hrecords id j hj)

theorem Call.Covered.disconnect {call : Call} {h : Hub} (hcovered : call.Covered h removed)
    (i : Nat) : call.Covered (h.disconnect i) (i :: removed) := by
  cases call with
  | checked j =>
      by_cases hj : j = i
      · exact .inl (hj ▸ List.mem_cons_self)
      · rcases hcovered with hmem | ⟨c, hc, hon⟩
        · exact .inl (List.mem_cons_of_mem i hmem)
        · refine .inr ⟨c, ?_, hon⟩
          rw [Hub.getElem?_disconnect, hc, Option.map_some, if_neg hj]
  | reconnecting j => exact List.mem_cons_of_mem i hcovered

/-- `StopServerLocked` keeps the tools, and what calls hold. -/
theorem Wiring.stopServerLocked (h : Wiring m removed) (id : Str) :
    Wiring (m.stopServerLocked id) ((m.servers.lookup id).toList ++ removed) ∧
      ∀ call : Call, call.Covered m.hub removed →
        call.Covered (m.stopServerLocked id).hub ((m.servers.lookup id).toList ++ removed) := by
  unfold ManagerState.stopServerLocked
  cases hi : m.servers.lookup id with
  | none => exact ⟨h, fun _ hcovered => hcovered⟩
  | some i =>
      refine ⟨h.disconnect (h.servers id i hi) _
        (fun _ _ => ManagerState.lookup_of_lookup_erase) (fun k j hj hne => ?_)
        (fun _ _ => ManagerState.lookup_of_lookup_erase), fun call hcovered => ?_⟩
      · have hk : k ≠ id := by
          rintro rfl
          rw [hi] at hj
          cases hj
          exact hne rfl
        rwa [AList.lookup_erase_ne hk]
      · exact hcovered.disconnect i

theorem Wiring.removeOldServer (h : Wiring m removed) (id : Str) :
    Wiring (m.removeOldServer id) ((m.mcpServers.lookup id).toList ++ removed) ∧
      ∀ call : Call, call.Covered m.hub removed →
        call.Covered (m.removeOldServer id).hub ((m.mcpServers.lookup id).toList ++ removed) := by
  unfold ManagerState.removeOldServer
  cases hi : m.mcpServers.lookup id with
  | none => exact ⟨h, fun _ hcovered => hcovered⟩
  | some i =>
      refine ⟨h.disconnect (h.records id i hi) _ (fun _ _ hj => hj) (fun _ _ hj _ => hj)
        (fun _ _ => ManagerState.lookup_of_lookup_erase), fun call hcovered => ?_⟩
      exact hcovered.disconnect i

/-! ## Connecting -/

theorem Connection.client_of_listed {answers : Answers} {tools : List MCPToolInfo}
    (h : c.ask lib answers = .listed tools) : c.createClient.client.isSome = true := by
  unfold ask at h
  cases hclient : c.createClient.client with
  | none =>
      rw [hclient] at h
      cases h
  | some client => rfl

/-- A connection joins the others. What is bound then was bound before, or is a tool of it. -/
theorem Wiring.append (h : Wiring m removed) {registry : Registry} {c : Connection}
    {mcpServers servers : AList (fun _ : Str => Nat)}
    (lastConfigs : AList (fun _ : Str => McpServerConfig)) (hcons : registry.Consistent)
    (hclient : c.connected = true → c.client.isSome = true)
    (hbound : ∀ i name, registry.Bound i name → m.hub.registry.Bound i name ∨
      i = m.hub.connections.length ∧ name ∈ c.availableTools.map (·.name) ∧
        ∃ id, servers.lookup id = some i)
    (hrecords : ∀ id i, mcpServers.lookup id = some i → i ≤ m.hub.connections.length)
    (hservers : ∀ id i, servers.lookup id = some i → i ≤ m.hub.connections.length)
    (hkept : ∀ id i, m.servers.lookup id = some i → servers.lookup id = some i) :
    Wiring ⟨⟨registry, m.hub.connections ++ [c]⟩, mcpServers, servers, lastConfigs⟩ removed := by
  refine ⟨hcons, fun i name hi => ?_, fun i hi => ?_, fun i d hd hon => ?_, ?_, ?_⟩
  · rcases hbound i name hi with hbefore | ⟨rfl, hname, hid⟩
    · obtain ⟨hstays, ⟨id, hid⟩, d, hd, hname⟩ := h.bound i name hbefore
      exact ⟨hstays, ⟨id, hkept id i hid⟩, d, Hub.getElem?_join hd c, hname⟩
    · refine ⟨fun hmem => ?_, hid, c, List.getElem?_concat_length, hname⟩
      obtain ⟨d, hd, _⟩ := h.off _ hmem
      have hlt := (List.getElem?_eq_some_iff.mp hd).1
      omega
  · obtain ⟨d, hd, hoff⟩ := h.off i hi
    exact ⟨d, Hub.getElem?_join hd c, hoff⟩
  · rcases Hub.of_getElem?_join hd with hbefore | rfl
    · exact h.client i d hbefore hon
    · exact hclient hon
  · intro id i hi
    have hle := hservers id i hi
    simp only [List.length_append, List.length_singleton]
    omega
  · intro id i hi
    have hle := hrecords id i hi
    simp only [List.length_append, List.length_singleton]
    omega

theorem Connection.Ends.of_barren {self : Nat} {r : Registry} {asked : Asked} {e : Effect}
    (hends : Ends self c r asked e) (hbarren : asked.Barren) :
    e.registry = r ∧ e.connection.connected = c.connected := by
  cases hends with
  | refused => exact ⟨rfl, createClient_connected⟩
  | failed => exact ⟨rfl, createClient_connected⟩
  | connected hall =>
      obtain ⟨tool, hmem, hbad⟩ := hbarren
      exact absurd (hall tool (List.mem_of_head? hmem)) hbad
  | @broken done rest bad hdone _ =>
      cases done with
      | nil => exact ⟨rfl, createClient_connected⟩
      | cons first done =>
          obtain ⟨tool, hmem, hbad⟩ := hbarren
          cases hmem
          exact absurd (hdone first List.mem_cons_self) hbad

/-- All tools are registered, or nothing is. -/
theorem Connection.Ends.of_whole {self : Nat} {r : Registry} {asked : Asked} {e : Effect}
    (hends : Ends self c r asked e) (hwhole : asked.Whole) :
    (∃ tools, asked = .listed tools ∧ e = ⟨.returned, { c.createClient with
      availableTools := tools
      connected := true }, r.registerAll self tools⟩) ∨
    e.registry = r ∧ e.connection.connected = c.connected := by
  cases hends with
  | refused => exact .inr ⟨rfl, createClient_connected⟩
  | failed => exact .inr ⟨rfl, createClient_connected⟩
  | @connected tools hall => exact .inl ⟨tools, rfl, rfl⟩
  | @broken done rest bad hdone hbad =>
      rcases hwhole with hall | hbarren
      · exact absurd (hall bad (by simp)) hbad
      · exact .inr ((Ends.broken hdone hbad).of_barren hbarren)

theorem bound_registerAll {r : Registry} (hcons : r.Consistent) {self : Nat}
    {tools : List MCPToolInfo} (h : (r.registerAll self tools).Bound i name) :
    r.Bound i name ∨ i = self ∧ name ∈ tools.map (·.name) := by
  rw [(hcons.registerAll self tools).bound_iff] at h
  obtain ⟨factory, hfind, hserver⟩ := h
  by_cases hname : name ∈ tools.map (·.name)
  · have hlast : ∃ factory, (r.registerAll self tools).find name = some factory ∧
        factory.server = some self := Registry.find_registerAll_of_mem hname
    rcases hlast with ⟨factory', hfind', hserver'⟩
    cases hfind'.symm.trans hfind
    cases hserver'.symm.trans hserver
    exact .inr ⟨rfl, hname⟩
  · rw [Registry.find_registerAll_of_not_mem hname] at hfind
    exact .inl (hcons.bound_iff.mpr ⟨factory, hfind, hserver⟩)

/-- A removed connection is replaced by one that is not connected. -/
theorem Wiring.replace (h : Wiring m removed) (hi : i ∈ removed) {c : Connection}
    (hoff : c.connected = false) :
    Wiring { m with hub := ⟨m.hub.registry, m.hub.connections.set i c⟩ } removed := by
  have hother : ∀ j, j ≠ i → (m.hub.connections.set i c)[j]? = m.hub.connections[j]? :=
    fun j hj => List.getElem?_set_ne (Ne.symm hj)
  have hself : (m.hub.connections.set i c)[i]? = some c := by
    obtain ⟨d, hd, _⟩ := h.off i hi
    exact List.getElem?_set_self (List.getElem?_eq_some_iff.mp hd).1
  refine ⟨h.consistent, fun j name hbound => ?_, fun j hj => ?_, fun j d hd hon => ?_, ?_, ?_⟩
  · obtain ⟨hstays, hid, d, hd, hname⟩ := h.bound j name hbound
    have hne : j ≠ i := fun heq => hstays (heq ▸ hi)
    exact ⟨hstays, hid, d, (hother j hne).trans hd, hname⟩
  · by_cases hne : j = i
    · exact ⟨c, hne ▸ hself, hoff⟩
    · obtain ⟨d, hd, hoffd⟩ := h.off j hj
      exact ⟨d, (hother j hne).trans hd, hoffd⟩
  · by_cases hne : j = i
    · rw [hne, hself] at hd
      cases hd
      rw [hoff] at hon
      cases hon
    · exact h.client j d ((hother j hne).symm.trans hd) hon
  · intro id j hj
    simp only [List.length_set]
    exact h.servers id j hj
  · intro id j hj
    simp only [List.length_set]
    exact h.records id j hj

theorem lookup_insert_le {m : AList (fun _ : Str => Nat)} {n : Nat}
    (h : ∀ id i, m.lookup id = some i → i < n) (id k : Str) (j : Nat)
    (hj : (m.insert id n).lookup k = some j) : j ≤ n := by
  by_cases hk : k = id
  · rw [hk, AList.lookup_insert] at hj
    cases hj
    exact Nat.le_refl _
  · rw [AList.lookup_insert_ne hk] at hj
    exact Nat.le_of_lt (h k j hj)

theorem lookup_insert_kept {m : AList (fun _ : Str => Nat)} {n : Nat} (h : m.lookup id = none)
    (k : Str) (j : Nat) (hj : m.lookup k = some j) : (m.insert id n).lookup k = some j := by
  have hk : k ≠ id := by
    rintro rfl
    rw [h] at hj
    cases hj
  rwa [AList.lookup_insert_ne hk]

/-- A server is started: the tools stay those of the servers, unless the start throws behind a
tool. -/
theorem Wiring.connectServer (h : Wiring m removed) {config : McpServerConfig} {answers : Answers}
    (hgood : ∀ endpoint ∈ endpointConfig config,
      ((newConnection config endpoint).ask lib answers).Whole)
    (hserver : m.servers.lookup config.id = none)
    (hrecord : m.mcpServers.lookup config.id = none) :
    Wiring (match m.connectServer lib config answers with
      | (.thrown, m) => m
      | (.returned, m) => (m.publish config.id).record config) removed := by
  cases hendpoint : endpointConfig config with
  | none =>
      rw [ManagerState.connectServer_none lib answers m hendpoint]
      simp only [ManagerState.publish, hrecord]
      exact ⟨h.consistent, h.bound, h.off, h.client, h.servers, h.records⟩
  | some endpoint =>
      have hends := Connection.connect_ends lib answers m.hub.connections.length m.hub.registry
        (show (newConnection config endpoint).connected = false from rfl)
      have hclient : ∀ tools, (newConnection config endpoint).ask lib answers = .listed tools →
          (newConnection config endpoint).createClient.client.isSome = true :=
        fun tools => Connection.client_of_listed
      have hquiet := hends.of_whole (hgood endpoint hendpoint)
      rw [ManagerState.connectServer_eq lib answers m hendpoint]
      dsimp only
      generalize (newConnection config endpoint).connect lib _ answers _ = e at hquiet
      have hnew : (m.servers.insert config.id m.hub.connections.length).lookup config.id =
          some m.hub.connections.length := AList.lookup_insert _
      have hservers := lookup_insert_le h.servers config.id
      have hrecords := lookup_insert_le h.records config.id
      have hkept : ∀ id i, m.servers.lookup id = some i →
          (m.servers.insert config.id m.hub.connections.length).lookup id = some i :=
        lookup_insert_kept hserver
      rcases hquiet with ⟨tools, hlisted, rfl⟩ | ⟨hregistry, hoff⟩
      · dsimp only [ManagerState.publish]
        rw [AList.lookup_insert]
        apply h.append _ (h.consistent.registerAll _ _) _ _ hrecords hservers hkept
        · exact fun _ => hclient tools hlisted
        · intro i name hi
          rcases bound_registerAll h.consistent hi with hbefore | ⟨rfl, hname⟩
          · exact .inl hbefore
          · exact .inr ⟨rfl, hname, config.id, hnew⟩
      · rcases e with ⟨outcome, c, registry⟩
        have hnoclient : c.connected = true → c.client.isSome = true := by
          intro hon
          rw [hon] at hoff
          cases hoff
        cases hregistry
        cases outcome with
        | returned =>
            dsimp only [ManagerState.publish]
            rw [AList.lookup_insert]
            exact h.append _ h.consistent hnoclient (fun _ _ => .inl) hrecords hservers hkept
        | thrown =>
            exact h.append m.lastConfigs h.consistent hnoclient (fun _ _ => .inl)
              (fun id i hi => Nat.le_of_lt (h.records id i hi))
              (fun id i hi => Nat.le_of_lt (h.servers id i hi)) (fun _ _ hi => hi)

/-- The connections that were there before a start are the same after it. -/
theorem connectServer_keeps (lib : JsonLib) (config : McpServerConfig) (answers : Answers)
    (m : ManagerState) (i : Nat) (c : Connection) (hc : m.hub.connections[i]? = some c) :
    (match m.connectServer lib config answers with
      | (.thrown, m) => m
      | (.returned, m) => (m.publish config.id).record config).hub.connections[i]? = some c := by
  have hhub : (m.connectServer lib config answers).2.hub.connections[i]? = some c := by
    cases hendpoint : endpointConfig config with
    | none =>
        rw [ManagerState.connectServer_none lib answers m hendpoint]
        exact hc
    | some endpoint =>
        rw [ManagerState.connectServer_eq lib answers m hendpoint]
        exact Hub.getElem?_join hc _
  generalize m.connectServer lib config answers = e at hhub ⊢
  rcases e with ⟨_ | _, m'⟩
  · have hsame : ((m'.publish config.id).record config).hub = m'.hub :=
      ManagerState.publish_hub config.id m'
    dsimp only
    rw [hsame]
    exact hhub
  · exact hhub

/-! ## Steps -/

/-- What is remembered of configurations plays no part. -/
theorem Wiring.remember (h : Wiring m removed)
    (lastConfigs : AList (fun _ : Str => McpServerConfig)) :
    Wiring { m with lastConfigs := lastConfigs } removed :=
  ⟨h.consistent, h.bound, h.off, h.client, h.servers, h.records⟩

theorem Call.Covered.keeps {call : Call} {h h' : Hub} (hcovered : call.Covered h removed)
    (hkeeps : ∀ (i : Nat) (c : Connection), h.connections[i]? = some c →
      h'.connections[i]? = some c) : call.Covered h' removed := by
  cases call with
  | checked i =>
      rcases hcovered with hmem | ⟨c, hc, hon⟩
      · exact .inl hmem
      · exact .inr ⟨c, hkeeps i c hc, hon⟩
  | reconnecting i => exact hcovered

theorem Call.Covered.replace {call : Call} {h : Hub} (hcovered : call.Covered h removed)
    (hi : i ∈ removed) (c : Connection) :
    call.Covered ⟨h.registry, h.connections.set i c⟩ removed := by
  cases call with
  | reconnecting j => exact hcovered
  | checked j =>
      by_cases hj : j = i
      · exact .inl (hj ▸ hi)
      · rcases hcovered with hgone | ⟨d, hd, hon⟩
        · exact .inl hgone
        · exact .inr ⟨d, (List.getElem?_set_ne (Ne.symm hj)).trans hd, hon⟩

theorem Operation.Fits.replace {operation : Operation} (h : operation.Fits m) (i : Nat)
    (c : Connection) :
    operation.Fits { m with hub := ⟨m.hub.registry, m.hub.connections.set i c⟩ } := by
  cases operation with
  | stoppingAll order =>
      refine ⟨fun j hj => ?_, h.2⟩
      rw [List.length_set]
      exact h.1 j hj
  | starting config answers rest => exact h
  | connecting config answers rest => exact h
  | idle => trivial
  | stopping order configs => trivial
  | applying configs => trivial

/-- What `StopAll` relies on while it goes from server to server. -/
theorem Operation.Fits.disconnect {order : List Nat} (hwiring : Wiring m removed)
    (h : (Operation.stoppingAll (i :: order)).Fits m) :
    Wiring { m with hub := m.hub.disconnect i } (i :: removed) ∧
      (Operation.stoppingAll order).Fits { m with hub := m.hub.disconnect i } := by
  have hlt := h.1 i List.mem_cons_self
  have hwiring' := hwiring.disconnect hlt m.lastConfigs
    (fun _ _ hj => hj) (fun _ _ hj _ => hj) (fun _ _ hj => hj)
  refine ⟨hwiring', fun j hj => ?_, fun id j hj => ?_⟩
  · have hsome := List.getElem?_eq_getElem (h.1 j (List.mem_cons_of_mem i hj))
    obtain ⟨c, hc, _⟩ := Hub.ages_disconnect m.hub i j _ hsome
    exact (List.getElem?_eq_some_iff.mp hc).1
  · have hgone : ∀ name, ¬ (m.hub.disconnect i).registry.Bound i name :=
      fun name hbound => (hwiring'.bound i name hbound).1 List.mem_cons_self
    rcases h.2 id j hj with hmem | hnone
    · rcases List.mem_cons.mp hmem with rfl | hmem
      · exact .inr hgone
      · exact .inl hmem
    · refine .inr fun name hbound => hnone name ?_
      have hc := List.getElem?_eq_getElem hlt
      exact ((Hub.bound_disconnect hwiring.consistent hc).2 j name hbound).1

/-- Every server was disconnected, so no tool is left. -/
theorem Operation.Fits.forget (hwiring : Wiring m removed)
    (h : (Operation.stoppingAll []).Fits m)
    (lastConfigs : AList (fun _ : Str => McpServerConfig)) :
    Wiring { m with servers := ∅, lastConfigs := lastConfigs } removed := by
  have hunbound : ∀ i name, ¬ m.hub.registry.Bound i name := by
    intro i name hbound
    obtain ⟨_, ⟨id, hid⟩, _⟩ := hwiring.bound i name hbound
    rcases h.2 id i hid with hmem | hnone
    · cases hmem
    · exact hnone name hbound
  refine ⟨hwiring.consistent, fun i name hbound => ?_, hwiring.off, hwiring.client, ?_,
    hwiring.records⟩
  · exact absurd hbound (hunbound i name)
  · exact nofun

theorem mem_values {m : AList (fun _ : Str => Nat)} :
    i ∈ m.entries.map (·.2) ↔ ∃ id, m.lookup id = some i := by
  rw [List.mem_map]
  constructor
  · rintro ⟨⟨id, i⟩, hmem, rfl⟩
    exact ⟨id, AList.mem_lookup_iff.mpr hmem⟩
  · rintro ⟨id, hi⟩
    exact ⟨⟨id, i⟩, AList.mem_lookup_iff.mp hi, rfl⟩

namespace System.Ordered

/-- The manager stops a server, and goes on. -/
theorem stop (h : y.Ordered) (id : Str) {manager : ManagerState} {operation : Operation}
    (hwiring : Wiring (y.manager.stopServerLocked id)
        ((y.manager.servers.lookup id).toList ++ y.removed) →
      Wiring manager ((y.manager.servers.lookup id).toList ++ y.removed))
    (hhub : manager.hub = (y.manager.stopServerLocked id).hub) (hfits : operation.Fits manager) :
    Ordered { y.stop id with manager := manager, operation := operation } := by
  obtain ⟨hstopped, hcalls⟩ := h.wiring.stopServerLocked id
  refine ⟨hwiring hstopped, hfits, fun call hcall => ?_⟩
  dsimp only
  rw [hhub]
  exact hcalls call (h.calls call hcall)

theorem apply (h : y.Ordered) (config : McpServerConfig) (answers : Answers)
    (rest : List (McpServerConfig × Answers)) : (y.apply config answers rest).Ordered := by
  unfold System.apply
  dsimp only
  split
  · split
    · exact h.stop config.id (fun hwiring => hwiring.remember _) rfl trivial
    · exact ⟨h.wiring.remember _, trivial, h.calls⟩
  · split
    · exact ⟨h.wiring, trivial, h.calls⟩
    · apply h.stop config.id id rfl
      exact ManagerState.lookup_stopServerLocked y.manager config.id

theorem proceed (h : y.Ordered) (hgood : Good lib y .proceed) (hstep : y.proceed lib = some y') :
    y'.Ordered := by
  have hfits := h.operation
  have hconnects : ∀ config answers rest, y.operation = .connecting config answers rest →
      ∀ endpoint ∈ endpointConfig config,
        ((newConnection config endpoint).ask lib answers).Whole := by
    intro config answers rest hop
    apply hgood (config, answers)
    rw [hop]
    rfl
  unfold System.proceed at hstep
  cases hop : y.operation with
  | idle =>
      rw [hop] at hstep
      cases hstep
  | stopping order configs =>
      rw [hop] at hstep
      cases order with
      | nil =>
          cases hstep
          exact ⟨h.wiring, trivial, h.calls⟩
      | cons id order =>
          cases hstep
          exact h.stop id (fun hwiring => hwiring) rfl trivial
  | applying configs =>
      rw [hop] at hstep
      cases configs with
      | nil =>
          cases hstep
          exact ⟨h.wiring, trivial, h.calls⟩
      | cons p rest =>
          cases hstep
          exact h.apply p.1 p.2 rest
  | starting config answers rest =>
      rw [hop] at hstep hfits
      cases hstep
      obtain ⟨hremoved, hcalls⟩ := h.wiring.removeOldServer config.id
      refine ⟨hremoved, ⟨?_, ?_⟩, fun call hcall => hcalls call (h.calls call hcall)⟩
      · exact (congrArg (AList.lookup config.id)
          (y.manager.removeOldServer_servers config.id)).trans hfits
      · exact y.manager.lookup_removeOldServer config.id
  | connecting config answers rest =>
      rw [hop] at hstep hfits
      have hwiring := h.wiring.connectServer (hconnects config answers rest hop) hfits.1 hfits.2
      have hkeeps := connectServer_keeps lib config answers y.manager
      dsimp only at hstep
      generalize y.manager.connectServer lib config answers = e at hstep hwiring hkeeps
      rcases e with ⟨_ | _, m⟩
      · cases hstep
        exact ⟨hwiring, trivial, fun call hcall => (h.calls call hcall).keeps hkeeps⟩
      · cases hstep
        exact ⟨hwiring, trivial, fun call hcall => (h.calls call hcall).keeps hkeeps⟩
  | stoppingAll order =>
      rw [hop] at hstep hfits
      cases order with
      | nil =>
          cases hstep
          exact ⟨hfits.forget h.wiring ∅, trivial, h.calls⟩
      | cons i order =>
          cases hstep
          obtain ⟨hwiring, hrest⟩ := hfits.disconnect h.wiring
          exact ⟨hwiring, hrest, fun call hcall => (h.calls call hcall).disconnect i⟩

theorem look (h : y.Ordered) {k : Nat} (hstep : y.look k = some y') : y'.Ordered := by
  unfold System.look at hstep
  split at hstep
  · rename_i i hcall
    obtain ⟨c, hc, rfl⟩ := Option.map_eq_some_iff.mp hstep
    have hcovered := h.calls _ (List.mem_of_getElem? hcall)
    split
    · rename_i hoff
      refine ⟨h.wiring, h.operation, fun call hmem => ?_⟩
      rcases List.mem_or_eq_of_mem_set hmem with hmem | rfl
      · exact h.calls call hmem
      · -- a connected server has its client, so this one was removed
        rcases hcovered with hremoved | ⟨d, hd, hon⟩
        · exact hremoved
        · rw [hc] at hd
          cases hd
          have hclient := h.wiring.client i c hc hon
          rcases hoff with hnone | hoff
          · rw [hnone] at hclient
            cases hclient
          · rw [hon] at hoff
            cases hoff
    · exact ⟨h.wiring, h.operation, fun call hmem => h.calls call (List.mem_of_mem_eraseIdx hmem)⟩
  · cases hstep

/-- What a call to a removed server does to the hub. -/
theorem connect_eq (h : y.Ordered) (lib : JsonLib) (answers : Answers) (hi : i ∈ y.removed) :
    ∃ c, y.manager.hub.connections[i]? = some c ∧ c.connected = false ∧
      (y.manager.hub.connect lib i answers).2 =
        ⟨(c.connect lib i answers y.manager.hub.registry).registry,
          y.manager.hub.connections.set i
            (c.connect lib i answers y.manager.hub.registry).connection⟩ := by
  obtain ⟨c, hc, hoff⟩ := h.wiring.off i hi
  refine ⟨c, hc, hoff, ?_⟩
  simp only [Hub.connect, hc]

theorem reconnect (h : y.Ordered) {k : Nat} {answers : Answers}
    (hgood : Good lib y (.reconnect k answers))
    (hcall : y.calls[k]? = some (.reconnecting i)) :
    Ordered { y with
      manager := { y.manager with hub := (y.manager.hub.connect lib i answers).2 }
      calls := y.calls.eraseIdx k } := by
  have hremoved : i ∈ y.removed := h.calls _ (List.mem_of_getElem? hcall)
  obtain ⟨c, hc, hoff, heq⟩ := h.connect_eq lib answers hremoved
  have hbarren : (c.ask lib answers).Barren := by
    apply hgood i _ c hc
    rw [hcall]
    rfl
  have hends := Connection.connect_ends lib answers i y.manager.hub.registry hoff
  obtain ⟨hregistry, hstays⟩ := hends.of_barren hbarren
  rw [heq, hregistry]
  exact ⟨h.wiring.replace hremoved (hstays.trans hoff), h.operation.replace i _,
    fun call hmem => (h.calls call (List.mem_of_mem_eraseIdx hmem)).replace hremoved _⟩

theorem step (h : y.Ordered) {e : SystemEvent} (hgood : Good lib y e)
    (hstep : systemStep lib y e = some y') : y'.Ordered := by
  cases e with
  | load order configs =>
      unfold systemStep at hstep
      dsimp only at hstep
      split at hstep
      · obtain ⟨_, hload⟩ := Option.ite_none_right_eq_some.mp hstep
        cases hload
        exact ⟨h.wiring, trivial, h.calls⟩
      · cases hstep
  | remove id =>
      unfold systemStep at hstep
      dsimp only at hstep
      split at hstep
      · rename_i hop
        cases hstep
        apply h.stop id (fun hwiring =>
          hwiring.remember ((y.manager.stopServerLocked id).lastConfigs.erase id)) rfl
        show y.operation.Fits _
        rw [hop]
        trivial
      · cases hstep
  | stopAll order =>
      unfold systemStep at hstep
      dsimp only at hstep
      split at hstep
      · obtain ⟨horder, hstop⟩ := Option.ite_none_right_eq_some.mp hstep
        cases hstop
        have hmem : ∀ i, i ∈ order ↔ ∃ id, y.manager.servers.lookup id = some i :=
          fun i => horder.mem_iff.trans mem_values
        refine ⟨h.wiring, ⟨fun i hi => ?_, fun id i hi => .inl ((hmem i).mpr ⟨id, hi⟩)⟩, h.calls⟩
        obtain ⟨id, hid⟩ := (hmem i).mp hi
        exact h.wiring.servers id i hid
      · cases hstep
  | proceed => exact h.proceed hgood hstep
  | createTool name =>
      unfold systemStep at hstep
      dsimp only at hstep
      split at hstep
      · cases hstep
        exact ⟨h.wiring, h.operation, h.calls⟩
      · cases hstep
  | invoke server =>
      obtain ⟨_, hinvoke⟩ := Option.ite_none_right_eq_some.mp hstep
      obtain ⟨c, hc, rfl⟩ := Option.map_eq_some_iff.mp hinvoke
      split
      · rename_i hon
        refine ⟨h.wiring, h.operation, fun call hmem => ?_⟩
        rcases List.mem_append.mp hmem with hmem | hmem
        · exact h.calls call hmem
        · rw [List.mem_singleton.mp hmem]
          exact .inr ⟨c, hc, hon⟩
      · exact h
  | look k => exact h.look hstep
  | reconnect k answers =>
      obtain ⟨i, hcall, rfl⟩ := systemStep_reconnect hstep
      exact h.reconnect hgood hcall

/-! ## Steps that are not good -/

/-- A removed server that is answered comes back. -/
theorem barren_of_safe (h : y.Ordered) {answers : Answers} (hi : i ∈ y.removed) {calls : List Call}
    (hsafe : System.Safe { y with
      manager := { y.manager with hub := (y.manager.hub.connect lib i answers).2 }
      calls := calls }) :
    ∀ c ∈ y.manager.hub.connections[i]?, (c.ask lib answers).Barren := by
  obtain ⟨c, hc, hoff, heq⟩ := h.connect_eq lib answers hi
  intro d hd
  rw [Option.mem_def, hc] at hd
  cases hd
  have hself := List.getElem?_set_self (List.getElem?_eq_some_iff.mp hc).1
    (a := (c.connect lib i answers y.manager.hub.registry).connection)
  have hgone := hsafe.gone i hi
  have htools := hsafe.tools i hi
  dsimp only at hgone htools
  rw [heq] at hgone htools
  have hstays := hgone _ hself
  have hends := Connection.connect_ends lib answers i y.manager.hub.registry hoff
  generalize c.ask lib answers = asked at hends ⊢
  generalize c.connect lib i answers y.manager.hub.registry = e at hends hstays htools
  cases hends with
  | refused => trivial
  | failed => trivial
  | connected hall => cases hstays
  | @broken done rest bad hdone hbad =>
      cases done with
      | nil => exact ⟨bad, rfl, hbad⟩
      | cons tool done =>
          exact absurd (Registry.bound_registerAll_of_mem List.mem_cons_self) (htools tool.name)

/-- A start that throws behind a tool leaves one that calls no server of the manager. -/
theorem whole_of_safe (h : y.Ordered) {config : McpServerConfig} {answers : Answers}
    {endpoint : MCPEndpointConfig} (hendpoint : endpointConfig config = some endpoint)
    (hsafe : (y.manager.connectServer lib config answers).1 = .thrown →
      System.Safe { y with
        manager := (y.manager.connectServer lib config answers).2
        operation := .idle }) :
    ((newConnection config endpoint).ask lib answers).Whole := by
  rw [ManagerState.connectServer_eq lib answers y.manager hendpoint] at hsafe
  dsimp only at hsafe
  have hends := Connection.connect_ends lib answers y.manager.hub.connections.length
    y.manager.hub.registry (show (newConnection config endpoint).connected = false from rfl)
  generalize (newConnection config endpoint).ask lib answers = asked at hends ⊢
  generalize (newConnection config endpoint).connect lib _ answers _ = e at hends hsafe
  cases hends with
  | refused => trivial
  | failed => trivial
  | connected hall => exact .inl hall
  | @broken done rest bad hdone hbad =>
      cases done with
      | nil => exact .inr ⟨bad, rfl, hbad⟩
      | cons tool done =>
          have hbound : (y.manager.hub.registry.registerAll y.manager.hub.connections.length
              (tool :: done)).Bound y.manager.hub.connections.length tool.name :=
            Registry.bound_registerAll_of_mem List.mem_cons_self
          obtain ⟨id, i, hid, _, factory, hfind, hserver⟩ :=
            (hsafe rfl).owned rfl tool.name hbound.1
          obtain ⟨_, factory', hfind', hserver'⟩ := hbound
          cases hfind'.symm.trans hfind
          cases hserver'.symm.trans hserver
          have hlt := h.wiring.servers id _ hid
          omega

theorem good_of_safe (h : y.Ordered) {e : SystemEvent} (hstep : systemStep lib y e = some y')
    (hsafe : y'.Safe) : Good lib y e := by
  cases e with
  | reconnect k answers =>
      obtain ⟨i, hcall, rfl⟩ := systemStep_reconnect hstep
      intro j hj
      rw [hcall] at hj
      cases hj
      exact h.barren_of_safe (h.calls _ (List.mem_of_getElem? hcall)) hsafe
  | proceed =>
      rintro ⟨config, answers⟩ hp endpoint hendpoint
      have hop : ∃ rest, y.operation = .connecting config answers rest := by
        cases hop : y.operation with
        | connecting config' answers' rest =>
            rw [hop] at hp
            cases hp
            exact ⟨rest, rfl⟩
        | _ =>
            rw [hop] at hp
            cases hp
      obtain ⟨rest, hop⟩ := hop
      apply h.whole_of_safe hendpoint
      intro hthrown
      simp only [systemStep, System.proceed, hop] at hstep
      generalize y.manager.connectServer lib config answers = e at hstep hthrown ⊢
      rcases e with ⟨_ | _, m⟩
      · cases hthrown
      · cases hstep
        exact hsafe
  | load order configs => trivial
  | remove id => trivial
  | stopAll order => trivial
  | createTool name => trivial
  | invoke server => trivial
  | look k => trivial

end System.Ordered

/-- In every run whose steps are good, every state is safe, and every further step keeps it so if
and only if it is good. -/
theorem safe_iff_good (lib : JsonLib) {start y : System} (hnew : start.New)
    (hrun : Run (systemStep lib) (Good lib) start y) :
    y.Safe ∧ ∀ e y', systemStep lib y e = some y' → (y'.Safe ↔ Good lib y e) := by
  have hordered : y.Ordered := by
    apply hrun.invariant hnew.ordered
    intro _ _ _ hordered hgood hstep
    exact hordered.step hgood hstep
  refine ⟨hordered.safe, fun e y' hstep => ⟨hordered.good_of_safe hstep, fun hgood => ?_⟩⟩
  exact (hordered.step hgood hstep).safe

theorem System.new_start : System.New {} := ⟨.empty, rfl, rfl, rfl, rfl, rfl⟩

/-- A server is started, and removed while a call of its tool is under way. -/
def removedInCall : List SystemEvent :=
  [.load [] [(webConfig, listing "fetch")], .proceed, .proceed, .proceed, .proceed, .proceed,
    .createTool (lit "fetch"), .invoke 0, .remove (lit "web"), .look 0]

/-- A server that is not there any more stays removed. -/
theorem refused_stays_removed : ∃ y y', systemStep readerLib y
    (.reconnect 0 { hello := { statusCode := 500 } }) = some y' ∧ y.Safe ∧ y'.Safe := by
  have hcall : ∃ y, Run (systemStep readerLib) (Good readerLib) {} y ∧
      ((systemStep readerLib y (.reconnect 0 { hello := { statusCode := 500 } })).isSome =
        true ∧ Good readerLib y (.reconnect 0 { hello := { statusCode := 500 } })) := by
    apply exists_run_of_any (systemStep readerLib) (Good readerLib) {} removedInCall
    decide +kernel
  rcases hcall with ⟨y, hrun, hsome, hgood⟩
  rcases Option.isSome_iff_exists.mp hsome with ⟨y', hstep⟩
  have hsafe := safe_iff_good readerLib System.new_start hrun
  exact ⟨y, y', hstep, hsafe.1, (hsafe.2 _ y' hstep).mpr hgood⟩

/-- A server that was removed after the call was checked comes back. -/
theorem removed_comes_back : ¬ ∀ start y : System, start.New →
    Run (systemStep readerLib) AnyStep start y → y.Safe := by
  intro hclaim
  have hback : ∃ y, Run (systemStep readerLib) AnyStep {} y ∧ (0 ∈ y.removed ∧
      ∃ c ∈ y.manager.hub.connections[0]?, c.connected = true) := by
    apply exists_run_of_any (systemStep readerLib) AnyStep {}
      (removedInCall ++ [.reconnect 0 (listing "fetch")])
    decide +kernel
  rcases hback with ⟨y, hrun, hremoved, c, hc, hon⟩
  have hoff := (hclaim {} y System.new_start hrun).gone 0 hremoved c hc
  rw [hon] at hoff
  cases hoff

end JiuwenCore.Mcp
