import JiuwenCore.Mcp.Frame
import JiuwenCore.Mcp.Reconcile

/-!
# Answers that cannot be read

`Connect` registers tools while it reads the answers of the server, and what it throws goes
through `RegisterMCPServer`, `StartServerLocked` and `Apply` out of `Load`. So `Connect` is
atomic, and `Load` comes to its end, exactly as far as the answers can be read.
-/

namespace JiuwenCore.Mcp

/-! ## `Connect` -/

namespace Connection

/-- The requests can be dumped, and every typed access to the answers of the server finds the
type it asks for. -/
def Readable (lib : JsonLib) (answers : Answers) (c : Connection) : Prop :=
  ∀ client ∈ c.createClient.client,
    let hello := sendRequest lib client answers.hello
    let tools := sendRequest lib client answers.tools
    Utf8.Text client.name ∧ ErrorReadable hello ∧ (hello.member (lit "error") = none →
      ErrorReadable tools ∧ (tools.member (lit "error") = none → ∀ toolDef ∈ toolDefs tools,
        ToolReadable toolDef ∧ SchemaReadable (toolDef.memberOrNull (lit "inputSchema"))))

/-- What the server is asked does not throw, and the schemas of the tools it lists do not. -/
def Asked.Readable : Asked → Prop
  | .refused => True
  | .failed => False
  | .listed tools => ∀ tool ∈ tools, SchemaReadable tool.inputSchema

variable {lib : JsonLib} {answers : Answers} {self : Nat} {c : Connection} {r : Registry}

theorem toolInfo_inputSchema {toolDef : Json} {tool : MCPToolInfo}
    (h : toolInfo toolDef = some tool) :
    tool.inputSchema = toolDef.memberOrNull (lit "inputSchema") := by
  unfold toolInfo at h
  cases hname : toolDef.value Json.getString (lit "name") [] with
  | none =>
      rw [hname] at h
      cases h
  | some name =>
      cases hdescription : toolDef.value Json.getString (lit "description") [] with
      | none =>
          rw [hname, hdescription] at h
          cases h
      | some description =>
          rw [hname, hdescription] at h
          cases h
          rfl

theorem mapM_toolInfo {defs : List Json} {tools : List MCPToolInfo}
    (h : defs.mapM toolInfo = some tools) :
    tools.map (·.inputSchema) = defs.map (·.memberOrNull (lit "inputSchema")) := by
  induction defs generalizing tools with
  | nil =>
      cases h
      rfl
  | cons toolDef rest ih =>
      rw [List.mapM_cons] at h
      cases hfirst : toolInfo toolDef with
      | none =>
          rw [hfirst] at h
          cases h
      | some tool =>
          cases hrest : rest.mapM toolInfo with
          | none =>
              rw [hfirst, hrest] at h
              cases h
          | some later =>
              rw [hfirst, hrest] at h
              cases h
              rw [List.map_cons, List.map_cons, ih hrest, toolInfo_inputSchema hfirst]

/-- The schemas of the listed tools are those in the definitions. -/
theorem listed_readable {response : Json} {tools : List MCPToolInfo}
    (h : listTools response = some tools) :
    (∀ tool ∈ tools, SchemaReadable tool.inputSchema) ↔
      (response.member (lit "error") = none → ∀ toolDef ∈ toolDefs response,
        SchemaReadable (toolDef.memberOrNull (lit "inputSchema"))) := by
  unfold listTools at h
  cases herror : response.member (lit "error") with
  | some error =>
      rw [herror] at h
      obtain ⟨message, _, rfl⟩ := Option.map_eq_some_iff.mp h
      simp
  | none =>
      rw [herror] at h
      have hschemas := mapM_toolInfo h
      have htools : (∀ tool ∈ tools, SchemaReadable tool.inputSchema) ↔
          ∀ schema ∈ tools.map (·.inputSchema), SchemaReadable schema := by simp
      rw [htools, hschemas]
      simp

theorem ask_readable : (c.ask lib answers).Readable ↔ c.Readable lib answers := by
  unfold ask Readable
  cases c.createClient.client with
  | none => exact iff_of_true trivial nofun
  | some client =>
      simp only [Option.mem_some_iff, forall_eq']
      by_cases hname : Utf8.Text client.name
      · rw [if_neg (not_not.mpr hname)]
        generalize sendRequest lib client answers.hello = hello
        generalize sendRequest lib client answers.tools = response
        cases hinit : initializeClient hello with
        | none =>
            have hnot : ¬ ErrorReadable hello := by
              rw [← initializeClient_isSome, hinit]
              decide
            exact iff_of_false id fun h => hnot h.2.1
        | some connected =>
            have hread : ErrorReadable hello := by
              rw [← initializeClient_isSome, hinit]
              rfl
            cases connected with
            | false =>
                have herror : hello.member (lit "error") ≠ none := by
                  rw [Ne, ← initializeClient_eq_true, hinit]
                  decide
                exact iff_of_true trivial ⟨hname, hread, fun h => absurd h herror⟩
            | true =>
                have herror := initializeClient_eq_true.mp hinit
                simp only [hname, hread, herror, true_and, true_implies]
                cases hlist : listTools response with
                | none =>
                    have hthrows : ¬ (listTools response).isSome = true := by
                      rw [hlist]
                      decide
                    have hnot := mt listTools_isSome.mpr hthrows
                    refine iff_of_false id fun h => hnot ⟨h.1, fun hnone toolDef hmem => ?_⟩
                    exact (h.2 hnone toolDef hmem).1
                | some tools =>
                    have hsome : (listTools response).isSome = true := by rw [hlist]; rfl
                    obtain ⟨hresponse, hdefs⟩ := listTools_isSome.mp hsome
                    refine (listed_readable hlist).trans ⟨fun h => ⟨hresponse, ?_⟩, fun h => ?_⟩
                    · exact fun hnone toolDef hmem => ⟨hdefs hnone toolDef hmem, h hnone toolDef hmem⟩
                    · exact fun hnone toolDef hmem => (h.2 hnone toolDef hmem).2
      · rw [if_pos hname]
        exact iff_of_false id fun h => hname h.1

/-- `Connect` returns if and only if what it reads can be read. -/
theorem connect_returns_iff (lib : JsonLib) (answers : Answers) (self : Nat) (r : Registry)
    (hoff : c.connected = false) :
    (c.connect lib self answers r).outcome = .returned ↔ c.Readable lib answers := by
  rw [← ask_readable]
  have hends := connect_ends lib answers self r hoff
  generalize c.ask lib answers = asked at hends
  generalize c.connect lib self answers r = e at hends
  cases hends with
  | refused => exact iff_of_true rfl trivial
  | failed => exact iff_of_false nofun id
  | connected hall => exact iff_of_true rfl hall
  | broken hdone hbad => exact iff_of_false nofun fun h => hbad (h _ (by simp))

/-- A `Connect` that returns has registered all tools or none. -/
def Atomic (self : Nat) (r : Registry) (listed : List MCPToolInfo) (e : Effect) : Prop :=
  e.outcome = .returned ∧
    (e.connection.connected = true ∧ (∀ tool ∈ listed, e.registry.Bound self tool.name) ∨
      e.registry = r)

theorem connect_atomic_iff (lib : JsonLib) (answers : Answers) (self : Nat) (c : Connection)
    (r : Registry) :
    Atomic self r (c.offers lib answers) (c.connect lib self answers r) ↔
      c.connected = true ∨ c.Readable lib answers := by
  cases hconnected : c.connected with
  | true =>
      have hsame : c.connect lib self answers r = ⟨.returned, c, r⟩ := if_pos hconnected
      rw [hsame]
      exact iff_of_true ⟨rfl, .inr rfl⟩ (.inl rfl)
  | false =>
      constructor
      · exact fun h => .inr ((connect_returns_iff lib answers self r hconnected).mp h.1)
      · rintro (hon | hread)
        · cases hon
        · refine ⟨(connect_returns_iff lib answers self r hconnected).mpr hread, ?_⟩
          rw [← ask_readable] at hread
          have hends := connect_ends lib answers self r hconnected
          unfold offers
          generalize c.ask lib answers = asked at hends hread
          generalize c.connect lib self answers r = e at hends
          cases hends with
          | refused => exact .inr rfl
          | failed => exact .inr rfl
          | connected hall => exact .inl ⟨rfl, fun tool htool => Registry.bound_registerAll_of_mem htool⟩
          | broken hdone hbad => exact absurd (hread _ (by simp)) hbad

end Connection

/-! ## `Load` -/

/-- The answers that the server of a configuration gives when it is started can be read. -/
def ConnectReadable (lib : JsonLib) (config : McpServerConfig) (answers : Answers) : Prop :=
  ∀ endpoint ∈ endpointConfig config, (newConnection config endpoint).Readable lib answers

namespace ManagerState

variable {lib : JsonLib} {config : McpServerConfig} {answers : Answers} {s : ManagerState}

theorem startServerLocked_returns_iff (lib : JsonLib) (config : McpServerConfig)
    (answers : Answers) (s : ManagerState) :
    (s.startServerLocked lib config answers).1 = .returned ↔
      ConnectReadable lib config answers := by
  have hstart : (s.startServerLocked lib config answers).1 =
      (s.registerMCPServer lib config answers).1 := by
    unfold startServerLocked
    generalize s.registerMCPServer lib config answers = registered
    rcases registered with ⟨_ | _, s'⟩ <;> rfl
  rw [hstart]
  unfold ConnectReadable registerMCPServer
  cases hendpoint : endpointConfig config with
  | none =>
      rw [connectServer_none lib answers _ hendpoint]
      exact iff_of_true rfl nofun
  | some endpoint =>
      rw [connectServer_eq lib answers _ hendpoint]
      dsimp only
      rw [Connection.connect_returns_iff lib answers _ _ rfl]
      simp

theorem startServerLocked_lastConfigs (lib : JsonLib) (config : McpServerConfig)
    (answers : Answers) (s : ManagerState) :
    (s.startServerLocked lib config answers).2.lastConfigs = s.lastConfigs := by
  have hregister : (s.registerMCPServer lib config answers).2.lastConfigs = s.lastConfigs := by
    unfold registerMCPServer
    cases hendpoint : endpointConfig config with
    | none =>
        rw [connectServer_none lib answers _ hendpoint]
        exact removeOldServer_lastConfigs s config.id
    | some endpoint =>
        rw [connectServer_eq lib answers _ hendpoint]
        exact removeOldServer_lastConfigs s config.id
  rw [← hregister]
  unfold startServerLocked
  generalize s.registerMCPServer lib config answers = registered
  rcases registered with ⟨_ | _, s'⟩
  · exact publish_lastConfigs config.id s'
  · rfl

theorem lookup_record (config : McpServerConfig) (s : ManagerState) :
    (s.record config).lastConfigs.lookup =
      Function.update s.lastConfigs.lookup config.id (some config) := by
  funext id
  by_cases hid : id = config.id
  · rw [hid, Function.update_self]
    exact AList.lookup_insert _
  · rw [Function.update_of_ne hid]
    exact AList.lookup_insert_ne hid

/-- `Apply` throws where it starts a server whose answers cannot be read. -/
theorem apply_thrown (henabled : config.enabled = true)
    (hchanged : ¬ rules.Unchanged (s.lastConfigs.lookup config.id) config)
    (hread : ¬ ConnectReadable lib config answers) :
    (s.apply lib config answers).1 = .thrown := by
  have hany : (s.lastConfigs.lookup config.id).any
      (fun last => !configChanged last config) = false := by
    rw [← Bool.not_eq_true, any_not_changed]
    exact hchanged
  have hstart := mt (startServerLocked_returns_iff lib config answers
    (s.stopServerLocked config.id)).mp hread
  simp only [apply, henabled, hany]
  generalize (s.stopServerLocked config.id).startServerLocked lib config answers = e at hstart ⊢
  rcases e with ⟨_ | _, s'⟩
  · exact absurd rfl hstart
  · rfl

/-- Otherwise it returns, and the configuration is remembered. -/
theorem apply_returned (hread : config.enabled = true →
    ¬ rules.Unchanged (s.lastConfigs.lookup config.id) config →
      ConnectReadable lib config answers) :
    (s.apply lib config answers).1 = .returned ∧
      (s.apply lib config answers).2.lastConfigs.lookup =
        remembered s.lastConfigs.lookup config := by
  have hstop := stopServerLocked_lastConfigs s config.id
  cases henabled : config.enabled with
  | false =>
      have hmeant : remembered s.lastConfigs.lookup config =
          Function.update s.lastConfigs.lookup config.id (some config) :=
        if_neg fun hboth => by rw [henabled] at hboth; exact Bool.noConfusion hboth.1
      simp only [apply, henabled, if_true, lookup_record, hmeant, true_and]
      split
      · rw [hstop]
      · rfl
  | true =>
      by_cases hsame : rules.Unchanged (s.lastConfigs.lookup config.id) config
      · have hmeant : remembered s.lastConfigs.lookup config = s.lastConfigs.lookup :=
          if_pos ⟨henabled, hsame⟩
        rw [hmeant]
        simp [apply, henabled, any_not_changed.mpr hsame]
      · have hmeant : remembered s.lastConfigs.lookup config =
            Function.update s.lastConfigs.lookup config.id (some config) :=
          if_neg fun hboth => hsame hboth.2
        have hany : (s.lastConfigs.lookup config.id).any
            (fun last => !configChanged last config) = false := by
          rw [← Bool.not_eq_true, any_not_changed]
          exact hsame
        have hstart := (startServerLocked_returns_iff lib config answers
          (s.stopServerLocked config.id)).mpr (hread henabled hsame)
        have hlast := (startServerLocked_lastConfigs lib config answers
          (s.stopServerLocked config.id)).trans hstop
        rw [hmeant]
        simp only [apply, henabled, hany]
        generalize (s.stopServerLocked config.id).startServerLocked lib config answers = e
          at hstart hlast ⊢
        rcases e with ⟨_ | _, s'⟩
        · dsimp only at hlast
          simp [lookup_record, hlast]
        · cases hstart

/-- `Load` has applied every configuration. -/
def Applied (before : Str → Option McpServerConfig) (wanted : List McpServerConfig)
    (result : Outcome × ManagerState) : Prop :=
  result.1 = .returned ∧ result.2.lastConfigs.lookup = wanted.foldl remembered before

theorem applyAll_applied_iff {configs : List (McpServerConfig × Answers)} {s : ManagerState} :
    Applied s.lastConfigs.lookup (configs.map (·.1)) (s.applyAll lib configs) ↔
      ∀ p ∈ started s.lastConfigs.lookup configs, ConnectReadable lib p.1 p.2 := by
  induction configs generalizing s with
  | nil => exact iff_of_true ⟨rfl, rfl⟩ nofun
  | cons p rest ih =>
      rcases p with ⟨config, answers⟩
      rw [started]
      by_cases hthrows : (config.enabled = true ∧
          ¬ rules.Unchanged (s.lastConfigs.lookup config.id) config) ∧
            ¬ ConnectReadable lib config answers
      · obtain ⟨⟨henabled, hchanged⟩, hread⟩ := hthrows
        have hthrown := apply_thrown henabled hchanged hread
        rw [if_pos ⟨henabled, hchanged⟩, applyAll]
        generalize s.apply lib config answers = e at hthrown ⊢
        rcases e with ⟨_ | _, s'⟩
        · cases hthrown
        · refine iff_of_false (fun h => ?_) fun h => hread (h _ List.mem_cons_self)
          cases h.1
      · have hread : config.enabled = true →
            ¬ rules.Unchanged (s.lastConfigs.lookup config.id) config →
              ConnectReadable lib config answers := fun henabled hchanged =>
          not_not.mp fun hread => hthrows ⟨⟨henabled, hchanged⟩, hread⟩
        obtain ⟨hreturned, hlast⟩ := apply_returned hread
        have hrest : (∀ p ∈ started (remembered s.lastConfigs.lookup config) rest,
            ConnectReadable lib p.1 p.2) ↔ ∀ p ∈ (if config.enabled = true ∧
              ¬ rules.Unchanged (s.lastConfigs.lookup config.id) config then
              (config, answers) :: started (remembered s.lastConfigs.lookup config) rest
            else started (remembered s.lastConfigs.lookup config) rest),
              ConnectReadable lib p.1 p.2 := by
          split
          · rename_i hstarts
            simp [hread hstarts.1 hstarts.2]
          · exact Iff.rfl
        rw [applyAll, List.map_cons]
        generalize s.apply lib config answers = e at hreturned hlast ⊢
        rcases e with ⟨_ | _, s'⟩
        · dsimp only at hlast ⊢
          rw [← hrest, ← hlast, ← ih, Applied, Applied, List.foldl_cons, ← hlast]
        · cases hreturned

theorem load_applied_iff (lib : JsonLib) (order : List Str)
    (configs : List (McpServerConfig × Answers)) (s : ManagerState) :
    Applied s.lastConfigs.lookup (configs.map (·.1)) (s.load lib order configs) ↔
      ∀ p ∈ started s.lastConfigs.lookup configs, ConnectReadable lib p.1 p.2 := by
  have hstops : (order.foldl (fun s id => s.stopServerLocked id) s).lastConfigs =
      s.lastConfigs := by
    induction order generalizing s with
    | nil => rfl
    | cons id rest ih => exact (ih _).trans (stopServerLocked_lastConfigs s id)
  unfold load
  rw [← hstops]
  exact applyAll_applied_iff

end ManagerState

/-- `Connect` is atomic if and only if it has nothing to do or can read the answers of the server,
and `Load` applies all configurations if and only if the answers of those it starts can be read. -/
theorem connect_atomic_load_total_iff (lib : JsonLib) :
    (∀ (answers : Answers) (self : Nat) (c : Connection) (r : Registry),
      Connection.Atomic self r (c.offers lib answers) (c.connect lib self answers r) ↔
        c.connected = true ∨ c.Readable lib answers) ∧
    ∀ (order : List Str) (configs : List (McpServerConfig × Answers)) (s : ManagerState),
      ManagerState.Applied s.lastConfigs.lookup (configs.map (·.1)) (s.load lib order configs) ↔
        ∀ p ∈ started s.lastConfigs.lookup configs, ConnectReadable lib p.1 p.2 :=
  ⟨Connection.connect_atomic_iff lib, ManagerState.load_applied_iff lib⟩

/-- The response of a server with two tools, where a parameter of the second has a list of types. -/
def typesBody : Str :=
  lit "\x7b\"result\":\x7b\"tools\":[\x7b\"name\":\"a\"\x7d,\x7b\"inputSchema\":" ++
    lit "\x7b\"properties\":\x7b\"q\":\x7b\"type\":[\"null\"]\x7d\x7d\x7d\x7d]\x7d\x7d"

def listOfTypes : Answers where
  tools := { body := typesBody }

/-- The first tool is registered before the second throws, and the server behind it in the list
is not started. -/
theorem list_of_types_throws :
    (¬ ∀ (answers : Answers) (self : Nat) (c : Connection) (r : Registry),
      Connection.Atomic self r (c.offers readerLib answers)
        (c.connect readerLib self answers r)) ∧
    ¬ ∀ (order : List Str) (configs : List (McpServerConfig × Answers)) (s : ManagerState),
      ManagerState.Applied s.lastConfigs.lookup (configs.map (·.1))
        (s.load readerLib order configs) := by
  constructor
  · intro hclaim
    have hatomic := hclaim listOfTypes 0 webConnection {}
    have hthrown : (webConnection.connect readerLib 0 listOfTypes {}).outcome = .thrown := by
      decide +kernel
    cases hthrown.symm.trans hatomic.1
  · intro hclaim
    have happlied := hclaim [] [(webConfig, listOfTypes), ({ webConfig with id := lit "next" }, {})] {}
    have hthrown : (ManagerState.load readerLib []
        [(webConfig, listOfTypes), ({ webConfig with id := lit "next" }, {})] {}).1 = .thrown := by
      decide +kernel
    cases hthrown.symm.trans happlied.1

end JiuwenCore.Mcp
