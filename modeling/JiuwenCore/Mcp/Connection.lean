import JiuwenCore.Mcp.Client

/-!
# MCP connections

`Connect` makes a client, asks it for the tools of the server, and registers them one by one
while it reads their schemas. What throws on the way ends it where it is. `Disconnect` takes the
names of the tools out of the registry. Each runs under the lock of its connection.
-/

namespace JiuwenCore.Mcp

inductive Outcome where
  | returned
  | thrown
  deriving DecidableEq, Repr

/-- What the server answers to one `Connect`. -/
structure Answers where
  hello : Reply := {}
  tools : Reply := {}

inductive MCPTransportType where
  | stdio
  | sse
  | streamableHttp
  deriving DecidableEq, Repr

structure MCPEndpointConfig where
  command : Str := []
  args : List Str := []
  url : Str := []
  transportType : MCPTransportType := .streamableHttp
  env : List (Str × Str) := []
  headers : List (Str × Str) := []
  connectTimeoutSeconds : Int32 := 3
  requestTimeoutSeconds : Int32 := 10
  deriving DecidableEq, Repr

structure McpServerConfig where
  id : Str := []
  name : Str := []
  description : Str := []
  enabled : Bool := true
  type : Str := []
  url : Str := []
  endpoint : Str := []
  command : Str := []
  args : List Str := []
  env : List (Str × Str) := []
  headers : List (Str × Str) := []
  connectTimeoutSeconds : Int32 := 3
  requestTimeoutSeconds : Int32 := 10
  deriving DecidableEq, Repr

structure Connection where
  name : Str
  config : MCPEndpointConfig := {}
  connected : Bool := false
  availableTools : List MCPToolInfo := []
  client : Option MCPClient := none
  /-- The server configuration it was made from. -/
  source : McpServerConfig := {}

/-- A connection and the registry after an operation. -/
structure Effect where
  outcome : Outcome
  connection : Connection
  registry : Registry

namespace Connection

def createClient (c : Connection) : Connection :=
  match c.config.transportType with
  | .sse | .streamableHttp =>
      { c with client := some {
          name := c.name
          endpoint := c.config.url
          connectTimeoutSeconds := c.config.connectTimeoutSeconds
          requestTimeoutSeconds := c.config.requestTimeoutSeconds } }
  | .stdio => c

/-- The tool a connection registers for a definition. -/
def toolOf (self : Nat) (tool : MCPToolInfo) (params : List ToolParam) : McpTool where
  name := tool.name
  description :=
    if tool.description = [] then lit "MCP Tool: " ++ tool.name else tool.description
  params := params
  server := self

/-- The loop of `Connect` over the tools, and its end. -/
def registerTools (self : Nat) : List MCPToolInfo → Connection → Registry → Effect
  | [], c, r => ⟨.returned, { c with connected := true }, r⟩
  | tool :: rest, c, r =>
      let c := { c with availableTools := c.availableTools ++ [tool] }
      match toolParams tool.inputSchema with
      | none => ⟨.thrown, c, r⟩
      | some params =>
          registerTools self rest c (r.registerMcpTool tool.name (toolOf self tool params))

/-- `Connect`. The name of the client is in its first request, and dumping it throws on a text
that is not UTF-8. -/
def connect (lib : JsonLib) (self : Nat) (answers : Answers) (c : Connection) (r : Registry) :
    Effect :=
  if c.connected then ⟨.returned, c, r⟩
  else
    let c := c.createClient
    match c.client with
    | none => ⟨.returned, { c with connected := false }, r⟩
    | some client =>
        if ¬ Utf8.Text client.name then ⟨.thrown, c, r⟩
        else
          match initializeClient (sendRequest lib client answers.hello) with
          | none => ⟨.thrown, c, r⟩
          | some false => ⟨.returned, { c with connected := false }, r⟩
          | some true =>
              match listTools (sendRequest lib client answers.tools) with
              | none => ⟨.thrown, c, r⟩
              | some tools => registerTools self tools { c with availableTools := [] } r

def disconnect (c : Connection) (r : Registry) : Connection × Registry :=
  ({ c with connected := false, availableTools := [], client := none },
    r.unregisterAll (c.availableTools.map (·.name)))

end Connection

/-! ## The loop over the tools -/

namespace Registry

/-- The tools of a connection are registered. -/
def registerAll (self : Nat) (tools : List MCPToolInfo) (r : Registry) : Registry :=
  tools.foldl (fun r tool => r.registerMcpTool tool.name
    (Connection.toolOf self tool ((toolParams tool.inputSchema).getD defaultParams))) r

variable {r : Registry} {self : Nat}

theorem Consistent.registerAll (h : r.Consistent) (self : Nat) (tools : List MCPToolInfo) :
    (r.registerAll self tools).Consistent := by
  induction tools generalizing r with
  | nil => exact h
  | cons tool rest ih => exact ih (h.registerMcpTool _ _)

/-- Other names keep what they are bound to. -/
theorem find_registerAll_of_not_mem {tools : List MCPToolInfo} {name : Str}
    (h : name ∉ tools.map (·.name)) : (r.registerAll self tools).find name = r.find name := by
  induction tools generalizing r with
  | nil => rfl
  | cons tool rest ih =>
      rw [List.map_cons, List.mem_cons, not_or] at h
      have hrest := ih (r := r.registerMcpTool tool.name
        (Connection.toolOf self tool ((toolParams tool.inputSchema).getD defaultParams))) h.2
      exact hrest.trans (find_registerMcpTool_ne h.1)

/-- The names of the tools are bound to the connection. -/
theorem find_registerAll_of_mem {tools : List MCPToolInfo} {name : Str}
    (h : name ∈ tools.map (·.name)) : ∃ factory,
      (r.registerAll self tools).find name = some factory ∧ factory.server = some self := by
  induction tools generalizing r with
  | nil => cases h
  | cons tool rest ih =>
      by_cases hrest : name ∈ rest.map (·.name)
      · exact ih hrest
      · rcases List.mem_cons.mp h with rfl | hmem
        · exact ⟨_, (find_registerAll_of_not_mem hrest).trans find_registerMcpTool, rfl⟩
        · exact absurd hmem hrest

/-- The tools are registered, and bound to the connection. -/
theorem bound_registerAll_of_mem {tools : List MCPToolInfo} {tool : MCPToolInfo}
    (h : tool ∈ tools) : (r.registerAll self tools).Bound self tool.name := by
  refine ⟨?_, find_registerAll_of_mem (List.mem_map_of_mem h)⟩
  have hall : ∀ (names : List MCPToolInfo) (r : Registry),
      tool.name ∈ r.mcpToolNames ∨ tool ∈ names →
        tool.name ∈ (r.registerAll self names).mcpToolNames := by
    intro names
    induction names with
    | nil => exact fun r h => h.resolve_right List.not_mem_nil
    | cons first rest ih =>
        intro r h
        apply ih
        rcases h with hmem | hmem
        · exact .inl (Finset.mem_insert_of_mem hmem)
        · rcases List.mem_cons.mp hmem with rfl | hmem
          · exact .inl (Finset.mem_insert_self _ _)
          · exact .inr hmem
  exact hall tools r (.inr h)

end Registry

namespace Connection

variable {self : Nat} {c : Connection} {r : Registry}

theorem registerTools_readable {tools : List MCPToolInfo}
    (h : ∀ tool ∈ tools, SchemaReadable tool.inputSchema) :
    registerTools self tools c r =
      ⟨.returned, { c with
        availableTools := c.availableTools ++ tools
        connected := true }, r.registerAll self tools⟩ := by
  induction tools generalizing c r with
  | nil => simp [registerTools, Registry.registerAll]
  | cons tool rest ih =>
      obtain ⟨params, hparams⟩ :=
        Option.isSome_iff_exists.mp (toolParams_isSome.mpr (h tool List.mem_cons_self))
      rw [registerTools, hparams]
      dsimp only
      rw [ih fun tool htool => h tool (List.mem_cons_of_mem _ htool)]
      simp [Registry.registerAll, hparams]

/-- The first tool whose schema cannot be read ends the loop; those before it are registered. -/
theorem registerTools_unreadable {done rest : List MCPToolInfo} {bad : MCPToolInfo}
    (h : ∀ tool ∈ done, SchemaReadable tool.inputSchema) (hbad : ¬ SchemaReadable bad.inputSchema) :
    registerTools self (done ++ bad :: rest) c r =
      ⟨.thrown, { c with availableTools := c.availableTools ++ (done ++ [bad]) },
        r.registerAll self done⟩ := by
  induction done generalizing c r with
  | nil =>
      have hnone : toolParams bad.inputSchema = none := by
        apply Option.not_isSome_iff_eq_none.mp
        rwa [toolParams_isSome]
      simp [registerTools, hnone, Registry.registerAll]
  | cons tool done ih =>
      obtain ⟨params, hparams⟩ :=
        Option.isSome_iff_exists.mp (toolParams_isSome.mpr (h tool List.mem_cons_self))
      rw [List.cons_append, registerTools, hparams]
      dsimp only
      rw [ih fun tool htool => h tool (List.mem_cons_of_mem _ htool)]
      simp [Registry.registerAll, hparams]

/-- A list of tools is readable, or there is a first one that is not. -/
theorem readable_or_first (tools : List MCPToolInfo) :
    (∀ tool ∈ tools, SchemaReadable tool.inputSchema) ∨
      ∃ done bad rest, tools = done ++ bad :: rest ∧
        (∀ tool ∈ done, SchemaReadable tool.inputSchema) ∧ ¬ SchemaReadable bad.inputSchema := by
  induction tools with
  | nil => exact .inl nofun
  | cons tool rest ih =>
      by_cases htool : SchemaReadable tool.inputSchema
      · rcases ih with hall | ⟨done, bad, rest', rfl, hdone, hbad⟩
        · exact .inl (List.forall_mem_cons.mpr ⟨htool, hall⟩)
        · exact .inr ⟨tool :: done, bad, rest', rfl, List.forall_mem_cons.mpr ⟨htool, hdone⟩, hbad⟩
      · exact .inr ⟨[], tool, rest, rfl, nofun, htool⟩

/-! ## What a server offers -/

/-- How far `Connect` comes before the loop. -/
inductive Asked where
  | refused
  | failed
  | listed (tools : List MCPToolInfo)

def ask (lib : JsonLib) (answers : Answers) (c : Connection) : Asked :=
  match c.createClient.client with
  | none => .refused
  | some client =>
      if ¬ Utf8.Text client.name then .failed
      else
        match initializeClient (sendRequest lib client answers.hello) with
        | none => .failed
        | some false => .refused
        | some true =>
            match listTools (sendRequest lib client answers.tools) with
            | none => .failed
            | some tools => .listed tools

theorem createClient_connected : c.createClient.connected = c.connected := by
  unfold createClient
  split <;> rfl

theorem createClient_availableTools : c.createClient.availableTools = c.availableTools := by
  unfold createClient
  split <;> rfl

theorem createClient_source : c.createClient.source = c.source := by
  unfold createClient
  split <;> rfl

theorem connect_eq {lib : JsonLib} {answers : Answers} (h : c.connected = false) :
    c.connect lib self answers r =
      match c.ask lib answers with
      | .refused => ⟨.returned, c.createClient, r⟩
      | .failed => ⟨.thrown, c.createClient, r⟩
      | .listed tools => registerTools self tools { c.createClient with availableTools := [] } r := by
  have hoff : c.createClient.connected = false := createClient_connected.trans h
  unfold connect ask
  rw [if_neg (by rw [h]; exact Bool.false_ne_true)]
  generalize c.createClient = d at hoff ⊢
  rcases d with ⟨name, config, connected, availableTools, client, source⟩
  cases hoff
  cases client with
  | none => rfl
  | some client =>
      dsimp only
      split
      · rfl
      · cases initializeClient (sendRequest lib client answers.hello) with
        | none => rfl
        | some connected =>
            cases connected with
            | false => rfl
            | true => cases listTools (sendRequest lib client answers.tools) <;> rfl

/-- Everything a `Connect` of a connection that is not connected can do. -/
inductive Ends (self : Nat) (c : Connection) (r : Registry) : Asked → Effect → Prop
  | refused : Ends self c r .refused ⟨.returned, c.createClient, r⟩
  | failed : Ends self c r .failed ⟨.thrown, c.createClient, r⟩
  | connected {tools : List MCPToolInfo} (h : ∀ tool ∈ tools, SchemaReadable tool.inputSchema) :
      Ends self c r (.listed tools) ⟨.returned, { c.createClient with
        availableTools := tools
        connected := true }, r.registerAll self tools⟩
  | broken {done rest : List MCPToolInfo} {bad : MCPToolInfo}
      (h : ∀ tool ∈ done, SchemaReadable tool.inputSchema)
      (hbad : ¬ SchemaReadable bad.inputSchema) :
      Ends self c r (.listed (done ++ bad :: rest)) ⟨.thrown, { c.createClient with
        availableTools := done ++ [bad] }, r.registerAll self done⟩

theorem connect_ends (lib : JsonLib) (answers : Answers) (self : Nat) (r : Registry)
    (h : c.connected = false) :
    Ends self c r (c.ask lib answers) (c.connect lib self answers r) := by
  rw [connect_eq h]
  cases hasked : c.ask lib answers with
  | refused => exact .refused
  | failed => exact .failed
  | listed tools =>
      dsimp only
      rcases readable_or_first tools with hall | ⟨done, bad, rest, rfl, hdone, hbad⟩
      · rw [registerTools_readable hall, List.nil_append]
        exact .connected hall
      · rw [registerTools_unreadable hdone hbad, List.nil_append]
        exact .broken hdone hbad

end Connection

/-! ## Connections by their objects -/

/-- The registry, and the connections that were made. -/
structure Hub where
  registry : Registry := {}
  connections : List Connection := []

namespace Hub

def connect (lib : JsonLib) (i : Nat) (answers : Answers) (h : Hub) : Outcome × Hub :=
  match h.connections[i]? with
  | none => (.returned, h)
  | some c =>
      let e := c.connect lib i answers h.registry
      (e.outcome, { registry := e.registry, connections := h.connections.set i e.connection })

def disconnect (i : Nat) (h : Hub) : Hub :=
  match h.connections[i]? with
  | none => h
  | some c =>
      let (c, registry) := c.disconnect h.registry
      { registry := registry, connections := h.connections.set i c }

/-- `std::make_shared<MCPConnection>`. -/
def create (c : Connection) (h : Hub) : Hub := { h with connections := h.connections ++ [c] }

theorem getElem?_disconnect (h : Hub) (i j : Nat) : (h.disconnect i).connections[j]? =
    (h.connections[j]?).map fun c => if j = i then (c.disconnect h.registry).1 else c := by
  unfold disconnect
  by_cases hj : j = i
  · rw [hj]
    cases hi : h.connections[i]? with
    | none => simp [hi]
    | some c =>
        simp only [Option.map_some, if_true]
        exact List.getElem?_set_self (List.getElem?_eq_some_iff.mp hi).1
  · simp only [if_neg hj, Option.map_id']
    cases h.connections[i]? with
    | none => rfl
    | some c => exact List.getElem?_set_ne (Ne.symm hj)

/-- Connections keep their places when one joins them. -/
theorem getElem?_join {connections : List Connection} {i : Nat} {c : Connection}
    (hc : connections[i]? = some c) (c' : Connection) : (connections ++ [c'])[i]? = some c :=
  (List.getElem?_append_left (List.getElem?_eq_some_iff.mp hc).1).trans hc

theorem of_getElem?_join {connections : List Connection} {i : Nat} {c c' : Connection}
    (hc : (connections ++ [c'])[i]? = some c) : connections[i]? = some c ∨ c = c' := by
  by_cases hlt : i < connections.length
  · left
    exact (List.getElem?_append_left hlt).symm.trans hc
  · right
    have hmem := List.mem_of_getElem? ((List.getElem?_append_right (by omega)).symm.trans hc)
    exact List.mem_singleton.mp hmem

/-- A new connection is connected. -/
theorem create_connect (lib : JsonLib) (answers : Answers) (c : Connection) (h : Hub) :
    (h.create c).connect lib h.connections.length answers =
      let e := c.connect lib h.connections.length answers h.registry
      (e.outcome, ⟨e.registry, h.connections ++ [e.connection]⟩) := by
  have hlast : (h.create c).connections[h.connections.length]? = some c :=
    List.getElem?_concat_length
  simp only [connect, hlast]
  simp [create]

end Hub

end JiuwenCore.Mcp
