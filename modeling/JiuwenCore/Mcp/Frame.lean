import JiuwenCore.JsonReader
import JiuwenCore.Lib.NameClaims
import JiuwenCore.Lib.Runs
import JiuwenCore.Mcp.Connection

/-!
# Tools that outlive other connections

Connections take the names of their tools in the registry by overwriting what is there, and give
them back by erasing. Disconnecting one of them leaves all other tools as they should be exactly
as long as no connection has taken a name that was registered, or has kept one that another
connection registers later.
-/

namespace JiuwenCore.Mcp

open NameClaims

inductive LinkEvent where
  | create (c : Connection)
  | connect (i : Nat) (answers : Answers)
  | disconnect (i : Nat)

/-- Connections are made, connected (whether `Connect` throws or not) and disconnected. -/
def linkStep (lib : JsonLib) (h : Hub) : LinkEvent → Option Hub
  | .create c => some (h.create { name := c.name, config := c.config })
  | .connect i answers => some (h.connect lib i answers).2
  | .disconnect i => some (h.disconnect i)

/-- The tools that a `Connect` goes through. -/
def Connection.offers (lib : JsonLib) (answers : Answers) (c : Connection) : List MCPToolInfo :=
  match c.ask lib answers with
  | .listed tools => tools
  | .refused | .failed => []

/-- Nothing is registered under the name, and no other connection has it among its tools. -/
def Hub.Unclaimed (h : Hub) (i : Nat) (name : Str) : Prop :=
  h.registry.find name = none ∧
    ∀ c ∈ h.connections.eraseIdx i, name ∉ c.availableTools.map (·.name)

instance (h : Hub) (i : Nat) (name : Str) : Decidable (h.Unclaimed i name) :=
  inferInstanceAs (Decidable (_ ∧ _))

/-- A connection that comes to be made takes unclaimed names. One that throws over a schema does
so over the first, before it has registered a tool, and nothing is registered under the name of
that one. -/
def Free (lib : JsonLib) (h : Hub) : LinkEvent → Prop
  | .connect i answers => ∀ c ∈ h.connections[i]?, c.connected = false →
      if ∀ tool ∈ c.offers lib answers, SchemaReadable tool.inputSchema then
        ∀ tool ∈ c.offers lib answers, h.Unclaimed i tool.name
      else
        ∀ tool ∈ (c.offers lib answers).head?,
          ¬ SchemaReadable tool.inputSchema ∧ h.registry.find tool.name = none
  | .create _ | .disconnect _ => True

instance (lib : JsonLib) (h : Hub) : (e : LinkEvent) → Decidable (Free lib h e)
  | .connect i _ => inferInstanceAs (Decidable (∀ c ∈ h.connections[i]?, _ → ite _ _ _))
  | .create _ | .disconnect _ => inferInstanceAs (Decidable True)

/-- The tools of the start and of every connected server are registered and bound; all else is
as at the start. -/
structure Hub.Kept (start h : Hub) : Prop where
  builtins : ∀ name factory, start.registry.find name = some factory →
    h.registry.find name = some factory
  tools : ∀ (i : Nat) (c : Connection), h.connections[i]? = some c → c.connected = true →
    ∀ tool ∈ c.availableTools, h.registry.Bound i tool.name
  rest : ∀ name, (∀ c ∈ h.connections, c.connected = true →
      name ∉ c.availableTools.map (·.name)) →
    h.registry.find name = start.registry.find name ∧
      (name ∈ h.registry.mcpToolNames ↔ name ∈ start.registry.mcpToolNames)

/-- Before the first connection: the registry has the tools of the program. -/
structure Hub.New (h : Hub) : Prop where
  connections : h.connections = []
  names : h.registry.mcpToolNames = ∅
  builtins : ∀ name factory, h.registry.find name = some factory → factory.server = none

/-- The names of the tools of a connected server. -/
def Hub.owns (h : Hub) (i : Nat) : Set Str :=
  {name | ∃ c : Connection, h.connections[i]? = some c ∧ c.connected = true ∧
    name ∈ c.availableTools.map (·.name)}

/-- The registry has the tools of the connected servers, each under a name of its own. What the
others would give back is not registered. -/
structure Hub.Framed (start h : Hub) : Prop where
  consistent : h.registry.Consistent
  holds : Holds start.registry.find ToolFactory.server h.owns h.registry.find
  left : ∀ (i : Nat) (c : Connection), h.connections[i]? = some c → c.connected = false →
    ∀ name ∈ c.availableTools.map (·.name), h.registry.find name = none

variable {lib : JsonLib} {start h h' k : Hub} {i j : Nat} {c c' : Connection} {name : Str}

namespace Hub

/-- After all servers are disconnected the registry is that of the start. -/
theorem Kept.restored (hkept : Kept start h)
    (hnone : ∀ c ∈ h.connections, c.connected = false) : h.registry.SameTools start.registry := by
  have hrest : ∀ name, h.registry.find name = start.registry.find name ∧
      (name ∈ h.registry.mcpToolNames ↔ name ∈ start.registry.mcpToolNames) := by
    intro name
    apply hkept.rest name
    intro c hc hon
    rw [hnone c hc] at hon
    cases hon
  exact ⟨funext fun name => (hrest name).1, Finset.ext fun name => (hrest name).2⟩

theorem New.consistent (hnew : h.New) : h.registry.Consistent := by
  intro name
  rw [hnew.names]
  refine iff_of_false (Finset.notMem_empty name) ?_
  rintro ⟨factory, server, hfind, hserver⟩
  rw [hnew.builtins name factory hfind] at hserver
  cases hserver

theorem New.empty : New {} := ⟨rfl, rfl, nofun⟩

/-- Another tool of the program. -/
theorem New.registerTool (hnew : h.New) (name tool : Str) :
    New ⟨h.registry.registerTool name (.builtin tool), h.connections⟩ := by
  refine ⟨hnew.connections, hnew.names, fun other factory hfind => ?_⟩
  by_cases hother : other = name
  · rw [hother] at hfind
    cases (AList.lookup_insert h.registry.toolFactories).symm.trans hfind
    rfl
  · apply hnew.builtins other factory
    rw [← hfind]
    exact (AList.lookup_insert_ne hother).symm

theorem New.framed (hnew : h.New) : Framed h h := by
  have hnobody : ∀ i name, name ∉ h.owns i := by
    rintro i name ⟨c, hc, _⟩
    rw [hnew.connections] at hc
    cases hc
  refine ⟨hnew.consistent, ⟨fun i k hk => ?_, fun k _ => rfl, fun i k hk => ?_⟩, fun i c hc => ?_⟩
  · exact absurd hk (hnobody i k)
  · exact absurd hk (hnobody i k)
  · rw [hnew.connections] at hc
    cases hc

theorem Framed.kept (hnew : start.New) (hframed : Framed start h) : Kept start h := by
  refine ⟨fun _ _ => hframed.holds.start, fun i c hc hon tool htool => ?_, fun name hnone => ?_⟩
  · rw [hframed.consistent.bound_iff]
    exact hframed.holds.own i tool.name ⟨c, hc, hon, List.mem_map_of_mem htool⟩
  · have hfind : h.registry.find name = start.registry.find name := by
      apply hframed.holds.rest
      rintro i ⟨c, hc, hon, hname⟩
      exact hnone c (List.mem_of_getElem? hc) hon hname
    refine ⟨hfind, ?_⟩
    rw [hframed.consistent name, hnew.consistent name, hfind]

/-! ## Names after a change of one connection -/

theorem owns_off (hc : h.connections[i]? = some c) (hoff : c.connected = false) :
    h.owns i = ∅ := by
  apply Set.eq_empty_of_forall_notMem
  rintro name ⟨c', hc', hon, _⟩
  rw [hc] at hc'
  cases hc'
  rw [hoff] at hon
  cases hon

theorem owns_on (hc : h.connections[i]? = some c) (hon : c.connected = true) :
    name ∈ h.owns i ↔ name ∈ c.availableTools.map (·.name) := by
  constructor
  · rintro ⟨c', hc', _, hname⟩
    rw [hc] at hc'
    cases hc'
    exact hname
  · exact fun hname => ⟨c, hc, hon, hname⟩

theorem getElem?_set_self (registry : Registry) (hc : h.connections[i]? = some c) :
    (Hub.mk registry (h.connections.set i c')).connections[i]? = some c' :=
  List.getElem?_set_self (List.getElem?_eq_some_iff.mp hc).1

theorem owns_set_ne {registry : Registry} (hj : j ≠ i) :
    Hub.owns ⟨registry, h.connections.set i c'⟩ j = h.owns j := by
  ext name
  unfold owns
  rw [Set.mem_ofPred_eq, Set.mem_ofPred_eq]
  dsimp only
  rw [List.getElem?_set_ne (Ne.symm hj)]

/-! ## Steps -/

theorem Framed.create (hframed : Framed start h) (hc : c.connected = false)
    (htools : c.availableTools = []) : Framed start (h.create c) := by
  have howns : (h.create c).owns = h.owns := by
    funext i
    ext name
    constructor
    · rintro ⟨c', hc', hon, hname⟩
      rcases of_getElem?_join hc' with hold | rfl
      · exact ⟨c', hold, hon, hname⟩
      · rw [hc] at hon
        cases hon
    · rintro ⟨c', hc', hon, hname⟩
      exact ⟨c', getElem?_join hc' c, hon, hname⟩
  refine ⟨hframed.consistent, howns ▸ hframed.holds, fun i c' hc' hoff name hname => ?_⟩
  rcases of_getElem?_join hc' with hold | rfl
  · exact hframed.left i c' hold hoff name hname
  · rw [htools] at hname
    cases hname

theorem Framed.disconnect (hframed : Framed start h) (i : Nat) :
    Framed start (h.disconnect i) := by
  unfold Hub.disconnect
  cases hc : h.connections[i]? with
  | none => exact hframed
  | some c =>
      have herased : ∀ name, (c.disconnect h.registry).2.find name =
          if name ∈ c.availableTools.map (·.name) then none else h.registry.find name :=
        Registry.find_unregisterAll _ _
      refine ⟨hframed.consistent.unregisterAll _, ?_, fun j c' hc' hoff name hname => ?_⟩
      · apply hframed.holds.uninstall (i := i)
        · exact owns_off (getElem?_set_self _ hc) rfl
        · exact fun j hj => owns_set_ne hj
        · rintro name ⟨c', hc', _, hname⟩
          rw [hc] at hc'
          cases hc'
          exact (herased name).trans (if_pos hname)
        · intro name hname
          rw [herased name]
          by_cases hmem : name ∈ c.availableTools.map (·.name)
          · -- a connection that never came to be made gives back what is not registered
            have hoff : c.connected = false := by
              by_contra hon
              exact hname ⟨c, hc, Bool.eq_true_of_not_eq_false hon, hmem⟩
            rw [if_pos hmem, hframed.left i c hc hoff name hmem]
          · exact if_neg hmem
      · rw [herased name]
        by_cases hj : j = i
        · rw [hj, getElem?_set_self _ hc] at hc'
          cases hc'
          cases hname
        · rw [List.getElem?_set_ne (Ne.symm hj)] at hc'
          rw [hframed.left j c' hc' hoff name hname, ite_self]

/-- The connection at an index is replaced by one that is not connected, and the registry stays. -/
theorem Framed.replace (hframed : Framed start h) (hc : h.connections[i]? = some c)
    (hoff : c.connected = false) (hoff' : c'.connected = false)
    (hleft : ∀ name ∈ c'.availableTools.map (·.name), h.registry.find name = none) :
    Framed start ⟨h.registry, h.connections.set i c'⟩ := by
  have howns : Hub.owns ⟨h.registry, h.connections.set i c'⟩ = h.owns := by
    funext j
    by_cases hj : j = i
    · rw [hj, owns_off hc hoff, owns_off (getElem?_set_self _ hc) hoff']
    · exact owns_set_ne hj
  refine ⟨hframed.consistent, howns ▸ hframed.holds, fun j d hd hoffd name hname => ?_⟩
  by_cases hj : j = i
  · rw [hj, getElem?_set_self _ hc] at hd
    cases hd
    exact hleft name hname
  · rw [List.getElem?_set_ne (Ne.symm hj)] at hd
    exact hframed.left j d hd hoffd name hname

/-- The connection at an index comes to be made with unclaimed names. -/
theorem Framed.install (hframed : Framed start h) (hc : h.connections[i]? = some c)
    (hoff : c.connected = false) {tools : List MCPToolInfo}
    (hfree : ∀ tool ∈ tools, h.Unclaimed i tool.name) (hon : c'.connected = true)
    (htools : c'.availableTools = tools) :
    Framed start ⟨h.registry.registerAll i tools, h.connections.set i c'⟩ := by
  have howns : ∀ name, name ∈ Hub.owns ⟨h.registry.registerAll i tools, h.connections.set i c'⟩ i ↔
      name ∈ tools.map (·.name) := by
    intro name
    rw [owns_on (getElem?_set_self _ hc) hon, htools]
  refine ⟨hframed.consistent.registerAll _ _, ?_, fun j d hd hoffd name hname => ?_⟩
  · apply hframed.holds.install (i := i) (owns_off hc hoff)
    · exact fun j hj => owns_set_ne hj
    · intro name hname
      obtain ⟨tool, htool, rfl⟩ := List.mem_map.mp ((howns name).mp hname)
      exact hframed.holds.free_of_none (hfree tool htool).1
    · exact fun name hname => Registry.find_registerAll_of_mem ((howns name).mp hname)
    · intro name hname
      apply Registry.find_registerAll_of_not_mem
      rwa [← howns name]
  · by_cases hj : j = i
    · rw [hj, getElem?_set_self _ hc] at hd
      cases hd
      rw [hon] at hoffd
      cases hoffd
    · rw [List.getElem?_set_ne (Ne.symm hj)] at hd
      have hother : name ∉ tools.map (·.name) := by
        intro hmem
        obtain ⟨tool, htool, rfl⟩ := List.mem_map.mp hmem
        apply (hfree tool htool).2 d _ hname
        exact List.mem_eraseIdx_iff_getElem?.mpr ⟨j, hj, hd⟩
      exact (Registry.find_registerAll_of_not_mem hother).trans
        (hframed.left j d hd hoffd name hname)

/-- Everything a `Connect` does to a hub. -/
inductive Connects (lib : JsonLib) (h : Hub) (i : Nat) (answers : Answers) : Hub → Prop
  | absent (hnone : h.connections[i]? = none) : Connects lib h i answers h
  | connected {c : Connection} (hc : h.connections[i]? = some c) (hon : c.connected = true) :
      Connects lib h i answers h
  | idle {c : Connection} (hc : h.connections[i]? = some c) (hoff : c.connected = false)
      (hoffers : c.offers lib answers = []) :
      Connects lib h i answers ⟨h.registry, h.connections.set i c.createClient⟩
  | made {c : Connection} (hc : h.connections[i]? = some c) (hoff : c.connected = false)
      (hall : ∀ tool ∈ c.offers lib answers, SchemaReadable tool.inputSchema) :
      Connects lib h i answers ⟨h.registry.registerAll i (c.offers lib answers),
        h.connections.set i { c.createClient with
          availableTools := c.offers lib answers
          connected := true }⟩
  | broken {c : Connection} (hc : h.connections[i]? = some c) (hoff : c.connected = false)
      {done rest : List MCPToolInfo} {bad : MCPToolInfo}
      (hoffers : c.offers lib answers = done ++ bad :: rest)
      (hdone : ∀ tool ∈ done, SchemaReadable tool.inputSchema)
      (hbad : ¬ SchemaReadable bad.inputSchema) :
      Connects lib h i answers ⟨h.registry.registerAll i done,
        h.connections.set i { c.createClient with availableTools := done ++ [bad] }⟩

theorem connects (lib : JsonLib) (h : Hub) (i : Nat) (answers : Answers) :
    Connects lib h i answers (h.connect lib i answers).2 := by
  unfold Hub.connect
  cases hc : h.connections[i]? with
  | none => exact .absent hc
  | some c =>
      cases hconnected : c.connected with
      | true =>
          have hset : h.connections.set i c = h.connections := by
            obtain ⟨hlt, rfl⟩ := List.getElem?_eq_some_iff.mp hc
            exact List.set_getElem_self hlt
          simp only [Connection.connect, hconnected, if_true, hset]
          exact .connected hc hconnected
      | false =>
          have hends := Connection.connect_ends lib answers i h.registry hconnected
          dsimp only
          generalize hasked : c.ask lib answers = asked at hends
          generalize c.connect lib i answers h.registry = e at hends ⊢
          have hoffers : ∀ tools, asked = .listed tools → c.offers lib answers = tools := by
            rintro tools rfl
            rw [Connection.offers, hasked]
          cases hends with
          | refused => exact .idle hc hconnected (by rw [Connection.offers, hasked])
          | failed => exact .idle hc hconnected (by rw [Connection.offers, hasked])
          | connected hall =>
              rw [← hoffers _ rfl] at hall ⊢
              exact .made hc hconnected hall
          | broken hdone hbad => exact .broken hc hconnected (hoffers _ rfl) hdone hbad

theorem Framed.connect (hframed : Framed start h) {answers : Answers}
    (hfree : Free lib h (.connect i answers)) (hconnects : Connects lib h i answers h') :
    Framed start h' := by
  cases hconnects with
  | absent hnone => exact hframed
  | connected hc hon => exact hframed
  | idle hc hoff hoffers =>
      apply hframed.replace hc hoff (Connection.createClient_connected.trans hoff)
      rw [Connection.createClient_availableTools]
      exact hframed.left i _ hc hoff
  | made hc hoff hall =>
      have hunclaimed := hfree _ hc hoff
      rw [if_pos hall] at hunclaimed
      exact hframed.install hc hoff hunclaimed rfl rfl
  | @broken c hc hoff done rest bad hoffers hdone hbad =>
      have hfirst := hfree _ hc hoff
      rw [hoffers, if_neg fun hall => hbad (hall bad (by simp))] at hfirst
      have hoff' : { c.createClient with availableTools := done ++ [bad] }.connected = false :=
        Connection.createClient_connected.trans hoff
      cases done with
      | nil =>
          apply hframed.replace hc hoff hoff'
          intro name hname
          rw [List.mem_singleton.mp hname]
          exact (hfirst bad rfl).2
      | cons tool done =>
          exact absurd (hdone tool List.mem_cons_self) (hfirst tool rfl).1

theorem Framed.step (hframed : Framed start h) {e : LinkEvent} (hfree : Free lib h e)
    (hstep : linkStep lib h e = some h') : Framed start h' := by
  cases e with
  | create c =>
      cases hstep
      exact hframed.create rfl rfl
  | connect i answers =>
      cases hstep
      exact hframed.connect hfree (connects lib h i answers)
  | disconnect i =>
      cases hstep
      exact hframed.disconnect i

/-! ## Names that were not free -/

/-- A name that is not registered after a step which leaves what is connected was not registered
before it. -/
theorem Framed.find_none (hframed : Framed start h) (hkept : Kept start k)
    (hnone : k.registry.find name = none)
    (hstill : ∀ (j : Nat) (c : Connection), h.connections[j]? = some c → c.connected = true →
      k.connections[j]? = some c) : h.registry.find name = none := by
  have hothers : ∀ j, name ∉ h.owns j := by
    rintro j ⟨c, hc, hon, hname⟩
    obtain ⟨tool, htool, rfl⟩ := List.mem_map.mp hname
    obtain ⟨_, factory, hfind, _⟩ := hkept.tools j c (hstill j c hc hon) hon tool htool
    rw [hnone] at hfind
    cases hfind
  rw [hframed.holds.rest name hothers]
  cases hstart : start.registry.find name with
  | none => rfl
  | some factory =>
      have hlost := hkept.builtins name factory hstart
      rw [hnone] at hlost
      cases hlost

theorem disconnect_of_getElem? (hc : h.connections[i]? = some c) :
    h.disconnect i = ⟨h.registry.unregisterAll (c.availableTools.map (·.name)),
      h.connections.set i (c.disconnect h.registry).1⟩ := by
  simp only [Hub.disconnect, hc, Connection.disconnect]

/-- The connections that stay connected when one that was not is changed, and then disconnected. -/
theorem still_connected {registry : Registry} (hc : h.connections[i]? = some c)
    (hoff : c.connected = false) (j : Nat) (d : Connection) (hd : h.connections[j]? = some d)
    (hon : d.connected = true) :
    (Hub.disconnect i ⟨registry, h.connections.set i c'⟩).connections[j]? = some d := by
  have hj : j ≠ i := by
    rintro rfl
    rw [hc] at hd
    cases hd
    rw [hoff] at hon
    cases hon
  rw [disconnect_of_getElem? (getElem?_set_self _ hc)]
  dsimp only
  rw [List.set_set, List.getElem?_set_ne (Ne.symm hj)]
  exact hd

/-- A connection that comes to be made with a name that is claimed loses a tool when it, or the
other connection, is disconnected. -/
theorem Framed.unclaimed (hframed : Framed start h) (hc : h.connections[i]? = some c)
    (hoff : c.connected = false) {tools : List MCPToolInfo} (hon : c'.connected = true)
    (htools : c'.availableTools = tools)
    (hkept : ∀ j, Kept start
      (Hub.disconnect j ⟨h.registry.registerAll i tools, h.connections.set i c'⟩)) :
    ∀ tool ∈ tools, h.Unclaimed i tool.name := by
  intro tool htool
  have hname : tool.name ∈ c'.availableTools.map (·.name) := by
    rw [htools]
    exact List.mem_map_of_mem htool
  have hfind : h.registry.find tool.name = none := by
    apply hframed.find_none (hkept i) _ (still_connected hc hoff)
    rw [disconnect_of_getElem? (getElem?_set_self _ hc)]
    exact (Registry.find_unregisterAll _ _ _).trans (if_pos hname)
  refine ⟨hfind, fun d hd hmem => ?_⟩
  obtain ⟨j, hj, hd⟩ := List.mem_eraseIdx_iff_getElem?.mp hd
  have hset : (h.connections.set i c')[j]? = some d :=
    (List.getElem?_set_ne (Ne.symm hj)).trans hd
  have hbound := hkept j
  rw [disconnect_of_getElem? (h := ⟨_, h.connections.set i c'⟩) hset] at hbound
  obtain ⟨_, factory, hlost, _⟩ := hbound.tools i c'
    ((List.getElem?_set_ne hj).trans (getElem?_set_self h.registry hc)) hon tool
    (htools ▸ htool)
  rw [Registry.find_unregisterAll, if_pos hmem] at hlost
  cases hlost

/-- A connection that throws behind a tool leaves it registered, with nobody to give it back. -/
theorem Framed.first (hframed : Framed start h) (hnew : start.New)
    (hc : h.connections[i]? = some c) (hoff : c.connected = false) (hoff' : c'.connected = false)
    {done : List MCPToolInfo} {bad : MCPToolInfo} (htools : c'.availableTools = done ++ [bad])
    (hkept : ∀ j, Kept start
      (Hub.disconnect j ⟨h.registry.registerAll i done, h.connections.set i c'⟩)) :
    done = [] ∧ h.registry.find bad.name = none := by
  constructor
  · cases done with
    | nil => rfl
    | cons tool done =>
        have hlast : ∃ factory, (h.registry.registerAll i (tool :: done)).find tool.name =
            some factory ∧ factory.server = some i :=
          Registry.find_registerAll_of_mem List.mem_cons_self
        obtain ⟨factory, hfind, hserver⟩ := hlast
        have habsent : Hub.disconnect h.connections.length
            ⟨h.registry.registerAll i (tool :: done), h.connections.set i c'⟩ =
              ⟨h.registry.registerAll i (tool :: done), h.connections.set i c'⟩ := by
          simp [Hub.disconnect]
        have hnow := hkept h.connections.length
        rw [habsent] at hnow
        have hnobody : ∀ d ∈ h.connections.set i c', d.connected = true →
            tool.name ∉ d.availableTools.map (·.name) := by
          intro d hd hon hname
          obtain ⟨j, hj⟩ := List.mem_iff_getElem?.mp hd
          obtain ⟨tool', htool', heq⟩ := List.mem_map.mp hname
          obtain ⟨_, factory', hfind', hserver'⟩ := hnow.tools j d hj hon tool' htool'
          rw [heq, hfind] at hfind'
          cases hfind'
          rw [hserver] at hserver'
          cases hserver'
          rw [getElem?_set_self h.registry hc] at hj
          cases hj
          rw [hoff'] at hon
          cases hon
        have hstart := (hnow.rest tool.name hnobody).1
        dsimp only at hstart
        rw [hfind] at hstart
        rw [hnew.builtins tool.name factory hstart.symm] at hserver
        cases hserver
  · apply hframed.find_none (hkept i) _ (still_connected hc hoff)
    rw [disconnect_of_getElem? (getElem?_set_self _ hc)]
    apply (Registry.find_unregisterAll _ _ _).trans
    apply if_pos
    rw [htools]
    simp

theorem Framed.free (hframed : Framed start h) (hnew : start.New) {answers : Answers}
    (hconnects : Connects lib h i answers h') (hkept : ∀ j, Kept start (h'.disconnect j)) :
    Free lib h (.connect i answers) := by
  intro c hc hoff
  rw [Option.mem_def] at hc
  cases hconnects with
  | absent hnone =>
      rw [hnone] at hc
      cases hc
  | connected hc' hon =>
      rw [hc] at hc'
      cases hc'
      rw [hoff] at hon
      cases hon
  | idle hc' _ hoffers =>
      rw [hc] at hc'
      cases hc'
      rw [hoffers, if_pos nofun]
      exact nofun
  | made hc' _ hall =>
      rw [hc] at hc'
      cases hc'
      rw [if_pos hall]
      exact hframed.unclaimed hc hoff rfl rfl hkept
  | @broken _ hc' _ done rest bad hoffers hdone hbad =>
      rw [hc] at hc'
      cases hc'
      rw [hoffers, if_neg fun hall => hbad (hall bad (by simp))]
      have hoff' : { c.createClient with availableTools := done ++ [bad] }.connected = false :=
        Connection.createClient_connected.trans hoff
      rcases hframed.first hnew hc hoff hoff' rfl hkept with ⟨rfl, hfind⟩
      intro tool htool
      cases htool
      exact ⟨hbad, hfind⟩

end Hub

/-- After a run in which connections took free names only, and one more step: disconnecting any
connection leaves the tools of the program and of the other connected servers registered and
bound, and besides them the registry of the start, if and only if that step took free names only. -/
theorem kept_iff_free (lib : JsonLib) {start h h' : Hub} (hnew : start.New)
    (hrun : Run (linkStep lib) (Free lib) start h) {e : LinkEvent}
    (hstep : linkStep lib h e = some h') :
    (∀ i, Hub.Kept start (h'.disconnect i)) ↔ Free lib h e := by
  have hframed : Hub.Framed start h := by
    apply hrun.invariant hnew.framed
    intro _ _ _ hframed hfree hstep
    exact hframed.step hfree hstep
  constructor
  · intro hkept
    cases e with
    | create c => trivial
    | connect i answers =>
        cases hstep
        exact hframed.free hnew (Hub.connects lib h i answers) hkept
    | disconnect i => trivial
  · intro hfree i
    exact ((hframed.step hfree hstep).disconnect i).kept hnew

/-- One tool of the program. -/
def grepHub : Hub where
  registry := Registry.registerTool (lit "grep") (.builtin (lit "grep")) {}

theorem grepHub_new : grepHub.New := Hub.New.empty.registerTool (lit "grep") (lit "grep")

def webConnection : Connection where
  name := lit "web"
  config := { url := lit "http://web" }

/-- The response of a server with one tool. -/
def toolsBody (name : String) : Str :=
  lit "\x7b\"result\":\x7b\"tools\":[\x7b\"name\":\"" ++ lit name ++ lit "\"\x7d]\x7d\x7d"

def listing (name : String) : Answers where
  tools := { body := toolsBody name }

/-- A server whose tool has a name of its own. -/
theorem fetch_kept : ∃ h', linkStep readerLib (grepHub.create webConnection)
    (.connect 0 (listing "fetch")) = some h' ∧ ∀ i, Hub.Kept grepHub (h'.disconnect i) := by
  have hmade : Run (linkStep readerLib) (Free readerLib) grepHub (grepHub.create webConnection) :=
    .next .start (e := .create webConnection) trivial rfl
  have hsome : (linkStep readerLib (grepHub.create webConnection)
      (.connect 0 (listing "fetch"))).isSome = true := by
    decide +kernel
  rcases Option.isSome_iff_exists.mp hsome with ⟨h', hstep⟩
  refine ⟨h', hstep, ?_⟩
  apply (kept_iff_free readerLib grepHub_new hmade hstep).mpr
  decide +kernel

/-- A server that lists the name of a tool of the program takes it along when it goes. -/
theorem builtin_taken_along : ¬ ∀ (start h : Hub), start.New →
    Run (linkStep readerLib) AnyStep start h → ∀ i, Hub.Kept start (h.disconnect i) := by
  intro hclaim
  have hlost : ∃ h, Run (linkStep readerLib) AnyStep grepHub h ∧
      (h.disconnect 0).registry.find (lit "grep") = none := by
    apply exists_run_of_any (linkStep readerLib) AnyStep grepHub
      [.create webConnection, .connect 0 (listing "grep")]
    decide +kernel
  rcases hlost with ⟨h, hrun, hnone⟩
  have hkept := (hclaim grepHub h grepHub_new hrun 0).builtins (lit "grep")
    (.builtin (lit "grep")) (by decide)
  rw [hnone] at hkept
  cases hkept

end JiuwenCore.Mcp
