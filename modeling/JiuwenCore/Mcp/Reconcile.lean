import JiuwenCore.JsonReader
import JiuwenCore.Lib.Reconcile
import JiuwenCore.Lib.Runs
import JiuwenCore.Mcp.Manager

/-!
# The manager reconciles

The servers of the manager and the configurations it remembers are a table of slots by id, and
`Load` is the load of that table, as long as the servers that it starts come to be connected. So
the servers are those that were asked for exactly when the list does not compete for an id, and
`ConfigChanged` sees every difference to what runs.
-/

namespace JiuwenCore.Mcp

open Reconcile

def rules : Rules McpServerConfig Str where
  key := McpServerConfig.id
  enabled := McpServerConfig.enabled
  changed := configChanged
  changed_self := configChanged_self

@[simp] theorem rules_key (config : McpServerConfig) : rules.key config = config.id := rfl

@[simp] theorem rules_enabled (config : McpServerConfig) :
    rules.enabled config = config.enabled := rfl

/-! ## Starts -/

/-- The server lists tools, and their schemas can be read. -/
def Connection.Asked.Listed : Connection.Asked → Prop
  | .listed tools => ∀ tool ∈ tools, SchemaReadable tool.inputSchema
  | .refused | .failed => False

instance : (asked : Connection.Asked) → Decidable asked.Listed
  | .listed tools => inferInstanceAs (Decidable (∀ tool ∈ tools, SchemaReadable tool.inputSchema))
  | .refused | .failed => inferInstanceAs (Decidable False)

/-- A server that is started now comes to be connected. -/
def Startable (lib : JsonLib) (config : McpServerConfig) (answers : Answers) : Prop :=
  ∃ endpoint ∈ endpointConfig config, ((newConnection config endpoint).ask lib answers).Listed

instance (lib : JsonLib) (config : McpServerConfig) (answers : Answers) :
    Decidable (Startable lib config answers) :=
  inferInstanceAs (Decidable (∃ endpoint ∈ endpointConfig config, _))

/-- What is remembered after a configuration was applied. -/
def remembered (last : Str → Option McpServerConfig) (config : McpServerConfig) :
    Str → Option McpServerConfig :=
  if config.enabled = true ∧ rules.Unchanged (last config.id) config then last
  else Function.update last config.id (some config)

/-- The configurations that `Load` starts, by what was remembered before. -/
def started (last : Str → Option McpServerConfig) :
    List (McpServerConfig × Answers) → List (McpServerConfig × Answers)
  | [] => []
  | (config, answers) :: rest =>
      if config.enabled = true ∧ ¬ rules.Unchanged (last config.id) config then
        (config, answers) :: started (remembered last config) rest
      else started (remembered last config) rest

inductive ManagerEvent where
  | load (order : List Str) (configs : List (McpServerConfig × Answers))
  | remove (id : Str)
  | stopAll (order : List Nat)

/-- One operation of the manager, with the order in which it goes through its maps. -/
def managerStep (lib : JsonLib) (s : ManagerState) : ManagerEvent → Option ManagerState
  | .load order configs =>
      if order.Perm (s.toRemove (configs.map (·.1))) then some (s.load lib order configs).2
      else none
  | .remove id => some (s.remove id)
  | .stopAll order =>
      if order.Perm (s.servers.entries.map (·.2)) then some (s.stopAll order) else none

/-- Every server that the operation starts comes to be connected. -/
def StartsSucceed (lib : JsonLib) (s : ManagerState) : ManagerEvent → Prop
  | .load _ configs => ∀ p ∈ started s.lastConfigs.lookup configs, Startable lib p.1 p.2
  | .remove _ | .stopAll _ => True

instance (lib : JsonLib) (s : ManagerState) : (e : ManagerEvent) →
    Decidable (StartsSucceed lib s e)
  | .load _ configs =>
      inferInstanceAs (Decidable (∀ p ∈ started s.lastConfigs.lookup configs, _))
  | .remove _ | .stopAll _ => inferInstanceAs (Decidable True)

namespace ManagerState

/-- The configuration from which the server with the id was started, while it is connected. -/
def running (s : ManagerState) (id : Str) : Option McpServerConfig :=
  (s.servers.lookup id).bind fun i => (s.hub.connections[i]?).bind fun c =>
    if c.connected then some c.source else none

def table (s : ManagerState) : Rules.Table McpServerConfig Str := fun id =>
  { last := s.lastConfigs.lookup id, running := s.running id }

/-- The servers are connections of their configurations, and so are the records. -/
structure Wired (s : ManagerState) : Prop where
  servers : ∀ id i, s.servers.lookup id = some i →
    ∃ c, s.hub.connections[i]? = some c ∧ c.connected = true ∧ c.source.id = id
  records : ∀ id i, s.mcpServers.lookup id = some i →
    ∃ c, s.hub.connections[i]? = some c ∧ c.source.id = id

variable {lib : JsonLib} {config : McpServerConfig} {answers : Answers} {s : ManagerState}
  {id k : Str} {i : Nat} {c : Connection}

theorem running_of_connected (hi : s.servers.lookup id = some i)
    (hc : s.hub.connections[i]? = some c) (hon : c.connected = true) :
    s.running id = some c.source := by
  simp [running, hi, hc, hon]

theorem running_of_none (h : s.servers.lookup id = none) : s.running id = none := by
  simp [running, h]

theorem Wired.running_isSome (h : s.Wired) (hi : s.servers.lookup id = some i) :
    (s.running id).isSome = true := by
  obtain ⟨c, hc, hon, _⟩ := h.servers id i hi
  rw [running_of_connected hi hc hon]
  rfl

/-! ## Stops -/

/-- A connection of an id is disconnected, and the id has no server afterwards. -/
theorem Wired.disconnect (h : s.Wired) (hc : s.hub.connections[i]? = some c)
    (hid : c.source.id = id) {servers mcpServers : AList (fun _ : Str => Nat)}
    (hservers : ∀ k, servers.lookup k = if k = id then none else s.servers.lookup k)
    (hrecords : ∀ k j, mcpServers.lookup k = some j → s.mcpServers.lookup k = some j) :
    let s' := { s with
      hub := s.hub.disconnect i
      servers := servers
      mcpServers := mcpServers }
    s'.Wired ∧ ∀ k, s'.running k = if k = id then none else s.running k := by
  have hother : ∀ k j, k ≠ id → s.servers.lookup k = some j →
      (s.hub.disconnect i).connections[j]? = s.hub.connections[j]? := by
    intro k j hk hj
    have hne : j ≠ i := by
      rintro rfl
      obtain ⟨c', hc', _, hid'⟩ := h.servers k j hj
      rw [hc] at hc'
      cases hc'
      exact hk (hid'.symm.trans hid)
    rw [Hub.getElem?_disconnect]
    simp only [if_neg hne, Option.map_id']
  refine ⟨⟨fun k j hj => ?_, fun k j hj => ?_⟩, fun k => ?_⟩
  · have hlookup : servers.lookup k = some j := hj
    rw [hservers] at hlookup
    obtain ⟨hk, hj'⟩ := Option.ite_none_left_eq_some.mp hlookup
    obtain ⟨c', hc', hon, hid'⟩ := h.servers k j hj'
    exact ⟨c', (hother k j hk hj').trans hc', hon, hid'⟩
  · obtain ⟨c', hc', hid'⟩ := h.records k j (hrecords k j hj)
    obtain ⟨c'', hc'', hsource, _⟩ := Hub.ages_disconnect s.hub i j c' hc'
    exact ⟨c'', hc'', by rw [hsource, hid']⟩
  · unfold running
    dsimp only
    rw [hservers]
    by_cases hk : k = id
    · rw [if_pos hk, if_pos hk]
      rfl
    · rw [if_neg hk, if_neg hk]
      cases hj : s.servers.lookup k with
      | none => rfl
      | some j =>
          dsimp only [Option.bind_some]
          rw [hother k j hk hj]

theorem stopServerLocked_of_none (h : s.servers.lookup id = none) : s.stopServerLocked id = s := by
  simp only [stopServerLocked, h]

theorem Wired.stopServerLocked (h : s.Wired) (id : Str) : (s.stopServerLocked id).Wired ∧
    ∀ k, (s.stopServerLocked id).running k = if k = id then none else s.running k := by
  cases hi : s.servers.lookup id with
  | none =>
      rw [stopServerLocked_of_none hi]
      refine ⟨h, fun k => ?_⟩
      by_cases hk : k = id
      · rw [if_pos hk, hk, running_of_none hi]
      · rw [if_neg hk]
  | some i =>
      obtain ⟨c, hc, _, hid⟩ := h.servers id i hi
      simp only [ManagerState.stopServerLocked, hi]
      apply h.disconnect hc hid (lookup_erase_eq _ id)
      exact fun _ _ hj => lookup_of_lookup_erase hj

/-! ## Starts -/

theorem Wired.removeOldServer (h : s.Wired) (hid : s.servers.lookup id = none) :
    (s.removeOldServer id).Wired ∧ (s.removeOldServer id).running = s.running := by
  unfold ManagerState.removeOldServer
  cases hi : s.mcpServers.lookup id with
  | none => exact ⟨h, rfl⟩
  | some i =>
      obtain ⟨c, hc, hsource⟩ := h.records id i hi
      have hservers : ∀ k, s.servers.lookup k = if k = id then none else s.servers.lookup k := by
        intro k
        split
        · rename_i hk
          rw [hk, hid]
        · rfl
      have hrecords : ∀ k j, (s.mcpServers.erase id).lookup k = some j →
          s.mcpServers.lookup k = some j := fun _ _ hj => lookup_of_lookup_erase hj
      have hdisconnect := h.disconnect hc hsource hservers hrecords
      refine ⟨hdisconnect.1, funext fun k => (hdisconnect.2 k).trans ?_⟩
      split
      · rename_i hk
        rw [hk, running_of_none hid]
      · rfl

/-- A start that succeeds ends with a connected connection of the configuration. -/
theorem startServerLocked_eq (h : Startable lib config answers) :
    ∃ registry c, c.connected = true ∧ c.source = config ∧
      s.startServerLocked lib config answers =
        let s := s.removeOldServer config.id
        (.returned, { s with
          hub := ⟨registry, s.hub.connections ++ [c]⟩
          mcpServers := s.mcpServers.insert config.id s.hub.connections.length
          servers := s.servers.insert config.id s.hub.connections.length }) := by
  obtain ⟨endpoint, hendpoint, hlisted⟩ := h
  generalize hs : s.removeOldServer config.id = s'
  have hoff : (newConnection config endpoint).connected = false := rfl
  have hends := Connection.connect_ends lib answers s'.hub.connections.length s'.hub.registry hoff
  have hregister := connectServer_eq lib answers s' hendpoint
  dsimp only at hregister
  generalize (newConnection config endpoint).ask lib answers = asked at hlisted hends
  generalize (newConnection config endpoint).connect lib _ answers _ = e at hends hregister
  cases hends with
  | refused => exact hlisted.elim
  | failed => exact hlisted.elim
  | broken hdone hbad => exact absurd (hlisted _ (by simp)) hbad
  | @connected tools hall =>
      refine ⟨s'.hub.registry.registerAll s'.hub.connections.length tools,
        { (newConnection config endpoint).createClient with
          availableTools := tools
          connected := true }, rfl, Connection.createClient_source, ?_⟩
      rw [startServerLocked, registerMCPServer, hs, hregister]
      dsimp only [publish]
      rw [AList.lookup_insert]

theorem Wired.startServerLocked (h : s.Wired) (hid : s.servers.lookup config.id = none)
    (hstart : Startable lib config answers) : ∃ s',
      s.startServerLocked lib config answers = (.returned, s') ∧ s'.Wired ∧
        s'.running = Function.update s.running config.id (some config) ∧
        s'.lastConfigs = s.lastConfigs := by
  obtain ⟨registry, c, hon, hsource, heq⟩ := startServerLocked_eq (s := s) hstart
  have hold := h.removeOldServer hid
  have hlast := removeOldServer_lastConfigs s config.id
  refine ⟨_, heq, ?_⟩
  generalize s.removeOldServer config.id = s' at hold hlast ⊢
  rcases hold with ⟨hwired, hrunning⟩
  have hnew : (s'.hub.connections ++ [c])[s'.hub.connections.length]? = some c :=
    List.getElem?_concat_length
  refine ⟨⟨fun k j hj => ?_, fun k j hj => ?_⟩, funext fun k => ?_, hlast⟩
  · by_cases hk : k = config.id
    · rw [hk] at hj ⊢
      cases (AList.lookup_insert s'.servers).symm.trans hj
      exact ⟨c, hnew, hon, by rw [hsource]⟩
    · obtain ⟨c', hc', hon', hid'⟩ :=
        hwired.servers k j ((AList.lookup_insert_ne hk).symm.trans hj)
      exact ⟨c', Hub.getElem?_join hc' c, hon', hid'⟩
  · by_cases hk : k = config.id
    · rw [hk] at hj ⊢
      cases (AList.lookup_insert s'.mcpServers).symm.trans hj
      exact ⟨c, hnew, by rw [hsource]⟩
    · obtain ⟨c', hc', hid'⟩ := hwired.records k j ((AList.lookup_insert_ne hk).symm.trans hj)
      exact ⟨c', Hub.getElem?_join hc' c, hid'⟩
  · by_cases hk : k = config.id
    · rw [hk, Function.update_self, ← hsource]
      exact running_of_connected (AList.lookup_insert _) hnew hon
    · rw [Function.update_of_ne hk, ← hrunning]
      unfold running
      dsimp only
      rw [AList.lookup_insert_ne hk]
      cases hj : s'.servers.lookup k with
      | none => rfl
      | some j =>
          obtain ⟨c', hc', _⟩ := hwired.servers k j hj
          simp only [Option.bind_some, hc', Hub.getElem?_join hc' c]

/-! ## The table after an operation -/

/-- The invariant of the manager. -/
structure Ready (s : ManagerState) : Prop where
  wired : s.Wired
  sound : rules.Sound s.table

theorem table_record {s s' : ManagerState} {r : Option McpServerConfig}
    (hlast : s'.lastConfigs = s.lastConfigs)
    (hrunning : ∀ k, s'.running k = if k = config.id then r else s.running k) :
    (s'.record config).table =
      Function.update s.table config.id { last := some config, running := r } := by
  funext k
  have hsame : (s'.record config).running k = s'.running k := rfl
  unfold table
  rw [hsame, hrunning]
  by_cases hk : k = config.id
  · rw [hk, Function.update_self, if_pos rfl]
    simp [record]
  · rw [Function.update_of_ne hk, if_neg hk, ← hlast]
    simp only [record, AList.lookup_insert_ne hk]

theorem any_not_changed {last : Option McpServerConfig} :
    (last.any fun last => !configChanged last config) = true ↔ rules.Unchanged last config := by
  cases last <;> simp [Rules.Unchanged, rules]

theorem Ready.apply (h : s.Ready) (lib : JsonLib) (config : McpServerConfig) (answers : Answers)
    (hstart : config.enabled = true →
    ¬ rules.Unchanged (s.lastConfigs.lookup config.id) config → Startable lib config answers) :
    ∃ s', s.apply lib config answers = (.returned, s') ∧ s'.Ready ∧
      s'.table = rules.apply s.table config := by
  have hready : ∀ s', s.apply lib config answers = (.returned, s') → s'.Wired →
      s'.table = rules.apply s.table config → ∃ s', s.apply lib config answers = (.returned, s') ∧
        s'.Ready ∧ s'.table = rules.apply s.table config := by
    intro s' heq hwired htable
    exact ⟨s', heq, ⟨hwired, htable ▸ h.sound.apply config⟩, htable⟩
  have hstop := h.wired.stopServerLocked config.id
  have hlast := stopServerLocked_lastConfigs s config.id
  cases henabled : config.enabled with
  | false =>
      cases hknown : s.lastConfigs.lookup config.id with
      | some last =>
          apply hready ((s.stopServerLocked config.id).record config)
          · simp [ManagerState.apply, henabled, hknown]
          · exact ⟨hstop.1.servers, hstop.1.records⟩
          · rw [table_record hlast hstop.2, Rules.apply, Rules.put_disabled henabled]
            simp [rules, table, hknown]
      | none =>
          apply hready (s.record config)
          · simp [ManagerState.apply, henabled, hknown]
          · exact ⟨h.wired.servers, h.wired.records⟩
          · rw [table_record (s := s) (r := s.running config.id) rfl, Rules.apply,
              Rules.put_disabled henabled]
            · simp [rules, table, hknown]
            · intro k
              split
              · rename_i hk
                rw [hk]
              · rfl
  | true =>
      by_cases hsame : rules.Unchanged (s.lastConfigs.lookup config.id) config
      · apply hready s
        · simp [ManagerState.apply, henabled, any_not_changed.mpr hsame]
        · exact h.wired
        · rw [Rules.apply, Rules.put_unchanged henabled hsame, Function.update_eq_self]
      · obtain ⟨s', heq, hwired, hrunning, hkept⟩ := hstop.1.startServerLocked
          (lookup_stopServerLocked s config.id) (hstart henabled hsame)
        apply hready (s'.record config)
        · have hany : (s.lastConfigs.lookup config.id).any
              (fun last => !configChanged last config) = false := by
            rw [← Bool.not_eq_true, any_not_changed]
            exact hsame
          simp [ManagerState.apply, henabled, hany, heq]
        · exact ⟨hwired.servers, hwired.records⟩
        · rw [table_record (s := s) (r := some config) (hkept.trans hlast), Rules.apply,
            Rules.put_changed henabled hsame]
          · rfl
          · intro k
            rw [hrunning]
            by_cases hk : k = config.id
            · rw [hk, Function.update_self, if_pos rfl]
            · rw [Function.update_of_ne hk, if_neg hk, hstop.2, if_neg hk]

theorem last_apply (t : Rules.Table McpServerConfig Str) (config : McpServerConfig) :
    (fun k => (rules.apply t config k).last) = remembered (fun k => (t k).last) config := by
  funext k
  unfold Rules.apply remembered
  rw [rules_key]
  by_cases hk : k = config.id
  · rw [hk, Function.update_self, Rules.put_last, rules_enabled]
    split
    · rfl
    · rw [Function.update_self]
  · rw [Function.update_of_ne hk]
    split
    · rfl
    · rw [Function.update_of_ne hk]

theorem Ready.applyAll {configs : List (McpServerConfig × Answers)} (h : s.Ready)
    (hstarts : ∀ p ∈ started s.lastConfigs.lookup configs, Startable lib p.1 p.2) :
    ∃ s', s.applyAll lib configs = (.returned, s') ∧ s'.Ready ∧
      s'.table = (configs.map (·.1)).foldl rules.apply s.table := by
  induction configs generalizing s with
  | nil => exact ⟨s, rfl, h, rfl⟩
  | cons p rest ih =>
      rcases p with ⟨config, answers⟩
      rw [started] at hstarts
      obtain ⟨s', heq, hready, htable⟩ := h.apply lib config answers
          fun henabled hchanged => by
        rw [if_pos ⟨henabled, hchanged⟩] at hstarts
        exact hstarts _ List.mem_cons_self
      have hlast : s'.lastConfigs.lookup = remembered s.lastConfigs.lookup config := by
        have hlasts := last_apply s.table config
        rw [← htable] at hlasts
        exact hlasts
      obtain ⟨s'', heq', hready', htable'⟩ := ih hready fun p hp => by
        apply hstarts
        rw [hlast] at hp
        split
        · exact List.mem_cons_of_mem _ hp
        · exact hp
      refine ⟨s'', ?_, hready', ?_⟩
      · rw [ManagerState.applyAll, heq]
        exact heq'
      · rw [htable', htable]
        rfl

theorem Ready.stops (h : s.Ready) (order : List Str) :
    let s' := order.foldl (fun s id => s.stopServerLocked id) s
    s'.Ready ∧ s'.lastConfigs = s.lastConfigs ∧
      s'.table = fun k => if k ∈ order then { s.table k with running := none } else s.table k := by
  induction order generalizing s with
  | nil => exact ⟨h, rfl, rfl⟩
  | cons id rest ih =>
      have hstop := h.wired.stopServerLocked id
      have htable : (s.stopServerLocked id).table =
          fun k => if k = id then { s.table k with running := none } else s.table k := by
        funext k
        unfold table
        rw [hstop.2, stopServerLocked_lastConfigs]
        split <;> rfl
      have hready : (s.stopServerLocked id).Ready := by
        refine ⟨hstop.1, fun k => ?_⟩
        rw [htable]
        dsimp only
        split
        · exact nofun
        · exact h.sound k
      obtain ⟨hrest, hlast, htables⟩ := ih hready
      refine ⟨hrest, hlast.trans (stopServerLocked_lastConfigs s id), htables.trans ?_⟩
      funext k
      rw [htable]
      by_cases hk : k = id
      · simp [hk]
      · simp [hk]

theorem mem_toRemove {wanted : List McpServerConfig} : id ∈ s.toRemove wanted ↔
    (s.lastConfigs.lookup id).isSome = true ∧ ¬ ∃ config ∈ wanted, config.id = id := by
  unfold toRemove
  rw [List.mem_filter, decide_eq_true_iff, AList.lookup_isSome]
  rfl

theorem Ready.load {order : List Str} {configs : List (McpServerConfig × Answers)} (h : s.Ready)
    (horder : order.Perm (s.toRemove (configs.map (·.1))))
    (hstarts : ∀ p ∈ started s.lastConfigs.lookup configs, Startable lib p.1 p.2) :
    ∃ s', s.load lib order configs = (.returned, s') ∧ s'.Ready ∧
      s'.table = rules.load s.table (configs.map (·.1)) := by
  obtain ⟨hready, hlast, htable⟩ := h.stops order
  rw [← hlast] at hstarts
  obtain ⟨s', heq, hready', htable'⟩ := hready.applyAll hstarts
  refine ⟨s', heq, hready', htable'.trans ?_⟩
  rw [htable, Rules.load]
  congr 1
  funext k
  unfold Rules.drop
  have hmem : k ∈ order ↔ (s.lastConfigs.lookup k).isSome = true ∧
      ¬ ∃ config ∈ configs.map (·.1), rules.key config = k :=
    horder.mem_iff.trans mem_toRemove
  by_cases hwanted : ∃ config ∈ configs.map (·.1), rules.key config = k
  · rw [if_neg fun hk => (hmem.mp hk).2 hwanted, if_pos hwanted]
  · rw [if_neg hwanted]
    cases hknown : s.lastConfigs.lookup k with
    | some last => rw [if_pos (hmem.mpr ⟨by rw [hknown]; rfl, hwanted⟩)]
    | none =>
        rw [if_neg fun hk => by rw [hknown] at hmem; exact Bool.noConfusion (hmem.mp hk).1]
        -- what runs was remembered
        cases hrunning : s.running k with
        | none => simp [table, hrunning]
        | some config =>
            have hgiven := (h.sound k config hrunning).1
            rw [show (s.table k).last = s.lastConfigs.lookup k from rfl, hknown] at hgiven
            cases hgiven

theorem Ready.remove (h : s.Ready) (id : Str) : (s.remove id).Ready := by
  have hstop := h.wired.stopServerLocked id
  refine ⟨⟨hstop.1.servers, hstop.1.records⟩, fun k config hconfig => ?_⟩
  have hrunning : (s.remove id).running k = (s.stopServerLocked id).running k := rfl
  rw [show ((s.remove id).table k).running = (s.remove id).running k from rfl, hrunning,
    hstop.2] at hconfig
  obtain ⟨hk, hconfig⟩ := Option.ite_none_left_eq_some.mp hconfig
  obtain ⟨hgiven, henabled⟩ := h.sound k config hconfig
  refine ⟨?_, henabled⟩
  rw [← hgiven]
  have hlast : (s.remove id).lastConfigs = s.lastConfigs.erase id :=
    congrArg (AList.erase id) (stopServerLocked_lastConfigs s id)
  unfold table
  rw [hlast]
  exact AList.lookup_erase_ne hk

theorem Ready.stopAll (h : s.Ready) (order : List Nat) : (s.stopAll order).Ready := by
  have hages : ∀ (hub : Hub), hub.Ages (order.foldl (fun hub i => hub.disconnect i) hub) := by
    induction order with
    | nil => exact Hub.Ages.refl
    | cons i rest ih => exact fun hub => (Hub.ages_disconnect hub i).trans (ih _)
  have hservers : ∀ id, (s.stopAll order).servers.lookup id = none := AList.lookup_empty
  refine ⟨⟨fun id i hi => ?_, fun id i hi => ?_⟩, fun k config hconfig => ?_⟩
  · rw [hservers] at hi
    cases hi
  · obtain ⟨c, hc, hid⟩ := h.wired.records id i hi
    obtain ⟨c', hc', hsource, _⟩ := hages s.hub i c hc
    exact ⟨c', hc', by rw [hsource, hid]⟩
  · rw [show ((s.stopAll order).table k).running = (s.stopAll order).running k from rfl,
      running_of_none (hservers k)] at hconfig
    cases hconfig

/-- At the start no server is known. -/
theorem ready_start (registry : Registry) : Ready { hub := { registry := registry } } := by
  refine ⟨⟨fun id i hi => ?_, fun id i hi => ?_⟩, fun k config hconfig => ?_⟩
  · cases hi
  · cases hi
  · cases hconfig

theorem Ready.step {s' : ManagerState} (h : s.Ready) {e : ManagerEvent}
    (hstarts : StartsSucceed lib s e) (hstep : managerStep lib s e = some s') : s'.Ready := by
  cases e with
  | load order configs =>
      obtain ⟨horder, hload⟩ := Option.ite_none_right_eq_some.mp hstep
      obtain ⟨s'', heq, hready, _⟩ := h.load horder hstarts
      rw [heq] at hload
      cases hload
      exact hready
  | remove id =>
      cases hstep
      exact h.remove id
  | stopAll order =>
      obtain ⟨_, hstop⟩ := Option.ite_none_right_eq_some.mp hstep
      cases hstop
      exact h.stopAll order

/-! ## Loads that change nothing -/

/-- A configuration that starts and stops nothing is at most remembered. -/
theorem Ready.quiet_apply (h : s.Ready) (lib : JsonLib) (answers : Answers)
    (hquiet : rules.Quiet (s.table config.id) config) : ∃ last,
      s.apply lib config answers = (.returned, { s with lastConfigs := last }) := by
  cases henabled : config.enabled with
  | false =>
      have hrunning : s.running config.id = none :=
        (rules.quiet_disabled henabled).mp hquiet
      have hnone : s.servers.lookup config.id = none := by
        cases hi : s.servers.lookup config.id with
        | none => rfl
        | some i =>
            have hsome := h.wired.running_isSome hi
            rw [hrunning] at hsome
            cases hsome
      refine ⟨s.lastConfigs.insert config.id config, ?_⟩
      simp [ManagerState.apply, henabled, stopServerLocked_of_none hnone, record]
  | true =>
      have hsame : rules.Unchanged (s.lastConfigs.lookup config.id) config :=
        (rules.quiet_enabled henabled).mp hquiet
      refine ⟨s.lastConfigs, ?_⟩
      simp [ManagerState.apply, henabled, any_not_changed.mpr hsame]

/-- One that does not leaves a server disconnected that ran. -/
theorem Ready.changes (h : s.Ready) (hrunning : (s.running config.id).isSome = true)
    (hchanges : ¬ rules.Quiet (s.table config.id) config) {hub : Hub}
    (hages : (s.apply lib config answers).2.hub.Ages hub) : hub ≠ s.hub := by
  rintro rfl
  obtain ⟨last, hlast⟩ := Option.isSome_iff_exists.mp hrunning
  have hknown : s.lastConfigs.lookup config.id = some last := (h.sound config.id last hlast).1
  have hstop : (s.stopServerLocked config.id).hub.Ages (s.apply lib config answers).2.hub := by
    cases henabled : config.enabled with
    | false =>
        simp only [ManagerState.apply, henabled, hknown]
        exact Hub.Ages.refl _
    | true =>
        have hany : (s.lastConfigs.lookup config.id).any
            (fun last => !configChanged last config) = false := by
          rw [← Bool.not_eq_true, any_not_changed]
          intro hsame
          exact hchanges ((rules.quiet_enabled henabled).mpr hsame)
        have hstart := ages_startServerLocked lib config answers (s.stopServerLocked config.id)
        simp only [ManagerState.apply, henabled, hany]
        generalize (s.stopServerLocked config.id).startServerLocked lib config answers = e
          at hstart ⊢
        rcases e with ⟨_ | _, s'⟩ <;> exact hstart
  cases hi : s.servers.lookup config.id with
  | none =>
      rw [running_of_none hi] at hrunning
      cases hrunning
  | some i =>
      obtain ⟨c, hc, hon, _⟩ := h.wired.servers config.id i hi
      have hgone : (s.stopServerLocked config.id).hub.connections[i]? =
          some (c.disconnect s.hub.registry).1 := by
        simp only [stopServerLocked, hi, Hub.getElem?_disconnect, hc]
        simp
      obtain ⟨c', hc', _, hoff⟩ := (hstop.trans hages) i _ hgone
      rw [hc] at hc'
      cases hc'
      cases hoff hon

/-- The hub is the same after a list of configurations if and only if they are quiet, where the
enabled ones run. -/
theorem Ready.applyAll_same {configs : List (McpServerConfig × Answers)} (h : s.Ready)
    (hruns : ∀ p ∈ configs, p.1.enabled = true → (s.running p.1.id).isSome = true)
    (hsame : (s.applyAll lib configs).2.hub = s.hub) :
    rules.QuietAll s.table (configs.map (·.1)) := by
  induction configs generalizing s with
  | nil => trivial
  | cons p rest ih =>
      rcases p with ⟨config, answers⟩
      have hages : (s.apply lib config answers).2.hub.Ages
          (s.applyAll lib ((config, answers) :: rest)).2.hub := by
        rw [ManagerState.applyAll]
        generalize s.apply lib config answers = e
        rcases e with ⟨_ | _, s'⟩
        · exact ages_applyAll rest s'
        · exact Hub.Ages.refl _
      have hquiet : rules.Quiet (s.table config.id) config := by
        by_contra hchanges
        refine h.changes ?_ hchanges hages hsame
        cases henabled : config.enabled with
        | false =>
            rw [rules.quiet_disabled henabled] at hchanges
            exact Option.isSome_iff_ne_none.mpr hchanges
        | true => exact hruns _ List.mem_cons_self henabled
      obtain ⟨last, heq⟩ := h.quiet_apply lib answers hquiet
      obtain ⟨s', heq', hready, htable⟩ := h.apply lib config answers
          fun henabled hchanged =>
        absurd ((rules.quiet_enabled henabled).mp hquiet) hchanged
      rw [heq] at heq'
      cases heq'
      rw [ManagerState.applyAll, heq] at hsame
      have hrest := ih hready (fun p hp => hruns p (List.mem_cons_of_mem _ hp)) hsame
      rw [htable] at hrest
      exact ⟨hquiet, hrest⟩

theorem Ready.quiet_applyAll (lib : JsonLib) {configs : List (McpServerConfig × Answers)}
    (h : s.Ready)
    (hquiet : rules.QuietAll s.table (configs.map (·.1))) : ∃ last,
      s.applyAll lib configs = (.returned, { s with lastConfigs := last }) := by
  induction configs generalizing s with
  | nil => exact ⟨s.lastConfigs, rfl⟩
  | cons p rest ih =>
      rcases p with ⟨config, answers⟩
      rcases hquiet with ⟨hfirst, hrest⟩
      obtain ⟨last, heq⟩ := h.quiet_apply lib answers hfirst
      obtain ⟨s', heq', hready, htable⟩ := h.apply lib config answers
          fun henabled hchanged =>
        absurd ((rules.quiet_enabled henabled).mp hfirst) hchanged
      rw [heq] at heq'
      cases heq'
      rw [← htable] at hrest
      obtain ⟨last', hlast'⟩ := ih hready hrest
      refine ⟨last', ?_⟩
      rw [ManagerState.applyAll, heq]
      exact hlast'

/-- The servers are those that were asked for, and another load of the list changes none. -/
structure Reconciled (lib : JsonLib) (wanted : List McpServerConfig) (s : ManagerState) :
    Prop where
  servers : ∀ id i, s.servers.lookup id = some i → (s.running id).isSome = true
  running : ∀ id config, s.running id = some config ↔
    config ∈ wanted ∧ config.enabled = true ∧ config.id = id
  again : ∀ (order : List Str) (configs : List (McpServerConfig × Answers)),
    configs.map (·.1) = wanted → order.Perm (s.toRemove wanted) →
      (s.load lib order configs).1 = .returned ∧ (s.load lib order configs).2.hub = s.hub ∧
        (s.load lib order configs).2.servers = s.servers

/-- Ids without a configuration have no server where what runs is what is wanted. -/
theorem Ready.stops_same {wanted : List McpServerConfig} (h : s.Ready)
    (hmeets : rules.Meets s.table wanted) {order : List Str}
    (horder : order.Perm (s.toRemove wanted)) :
    order.foldl (fun s id => s.stopServerLocked id) s = s := by
  have hall : ∀ ids : List Str, (∀ id ∈ ids, id ∈ order) →
      ids.foldl (fun s id => s.stopServerLocked id) s = s := by
    intro ids
    induction ids with
    | nil => exact fun _ => rfl
    | cons id rest ih =>
        intro hids
        have hmissing := (mem_toRemove.mp (horder.mem_iff.mp (hids id List.mem_cons_self))).2
        have hnone : s.servers.lookup id = none := by
          cases hi : s.servers.lookup id with
          | none => rfl
          | some i =>
              obtain ⟨config, hconfig⟩ :=
                Option.isSome_iff_exists.mp (h.wired.running_isSome hi)
              have hwanted := (hmeets id config).mp hconfig
              exact absurd ⟨config, hwanted.1, hwanted.2.2⟩ hmissing
        rw [List.foldl_cons, stopServerLocked_of_none hnone]
        exact ih fun id' hid' => hids id' (List.mem_cons_of_mem _ hid')
  exact hall order fun _ hid => hid

theorem Ready.reconciled_iff {configs : List (McpServerConfig × Answers)} (h : s.Ready) :
    s.Reconciled lib (configs.map (·.1)) ↔ rules.Meets s.table (configs.map (·.1)) ∧
      rules.QuietAll s.table (configs.map (·.1)) := by
  constructor
  · intro hreconciled
    have hmeets : rules.Meets s.table (configs.map (·.1)) := hreconciled.running
    refine ⟨hmeets, ?_⟩
    have hagain := (hreconciled.again _ configs rfl (List.Perm.refl _)).2.1
    rw [ManagerState.load, h.stops_same hmeets (List.Perm.refl _)] at hagain
    apply h.applyAll_same _ hagain
    intro p hp henabled
    rw [(hreconciled.running p.1.id p.1).mpr ⟨List.mem_map_of_mem hp, henabled, rfl⟩]
    rfl
  · rintro ⟨hmeets, hquiet⟩
    refine ⟨fun id i hi => h.wired.running_isSome hi, hmeets, fun order again hagain horder => ?_⟩
    rw [ManagerState.load, h.stops_same hmeets horder]
    rw [← hagain] at hquiet
    obtain ⟨last, heq⟩ := h.quiet_applyAll lib hquiet
    rw [heq]
    exact ⟨rfl, rfl, rfl⟩

end ManagerState

/-- After any operations whose starts succeed, a `Load` whose starts succeed leaves the servers
that were asked for, and the next `Load` of the list changes nothing, if and only if the list
has no other configuration with the id of an enabled one, and an enabled one that
`ConfigChanged` takes for the last one is what runs. -/
theorem reconciled_iff_clear (lib : JsonLib) {registry : Registry} {s : ManagerState}
    (hrun : Run (managerStep lib) (StartsSucceed lib) { hub := { registry := registry } } s)
    {order : List Str} {configs : List (McpServerConfig × Answers)}
    (horder : order.Perm (s.toRemove (configs.map (·.1))))
    (hstarts : StartsSucceed lib s (.load order configs)) :
    (s.load lib order configs).2.Reconciled lib (configs.map (·.1)) ↔
      rules.Clear s.table (configs.map (·.1)) := by
  have hready : s.Ready := by
    apply hrun.invariant (ManagerState.ready_start registry)
    intro _ _ _ hready hstarts hstep
    exact hready.step hstarts hstep
  obtain ⟨s', heq, hready', htable⟩ := hready.load horder hstarts
  rw [heq, hready'.reconciled_iff, htable]
  exact Rules.meets_and_quiet_iff hready.sound

def webConfig : McpServerConfig where
  id := lit "web"
  url := lit "http://web"

/-- The first `Load` of a server. -/
theorem web_reconciled : ManagerState.Reconciled readerLib [webConfig]
    (ManagerState.load readerLib [] [(webConfig, {})] {}).2 := by
  have hrun : Run (managerStep readerLib) (StartsSucceed readerLib)
      { hub := { registry := {} } } {} := .start
  have hstarts : StartsSucceed readerLib {} (.load [] [(webConfig, {})]) := by decide
  apply (reconciled_iff_clear readerLib hrun (.refl []) hstarts).mpr
  constructor
  · intro c hc d hd _ _
    rw [List.mem_singleton.mp hc, List.mem_singleton.mp hd]
  · rintro c _ _ ⟨last, hlast, _⟩
    cases hlast

/-- A server that was missing once does not come back: its configuration is still remembered. -/
theorem missing_server_not_restarted : ¬ ∀ (registry : Registry) (s : ManagerState)
    (order : List Str) (configs : List (McpServerConfig × Answers)),
    Run (managerStep readerLib) (StartsSucceed readerLib) { hub := { registry := registry } } s →
      order.Perm (s.toRemove (configs.map (·.1))) →
      StartsSucceed readerLib s (.load order configs) →
        (s.load readerLib order configs).2.Reconciled readerLib (configs.map (·.1)) := by
  intro hclaim
  have hgone : ∃ s, Run (managerStep readerLib) (StartsSucceed readerLib)
      { hub := { registry := {} } } s ∧ (([] : List Str).Perm (s.toRemove [webConfig]) ∧
        StartsSucceed readerLib s (.load [] [(webConfig, {})]) ∧
          (s.load readerLib [] [(webConfig, {})]).2.running (lit "web") = none) := by
    apply exists_run_of_any (managerStep readerLib) (StartsSucceed readerLib) _
      [.load [] [(webConfig, {})], .load [lit "web"] []]
    decide +kernel
  rcases hgone with ⟨s, hrun, horder, hstarts, hnone⟩
  have hrunning := (hclaim {} s [] [(webConfig, {})] hrun horder hstarts).running
    (lit "web") webConfig
  rw [hnone] at hrunning
  cases hrunning.mpr ⟨List.mem_singleton_self _, rfl, rfl⟩

end JiuwenCore.Mcp
