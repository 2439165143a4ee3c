import JiuwenCore.Config.Store

/-!
# Configurations over a restart

`Upsert` keeps a whole configuration as an override. What `Get` returns, and what a store
with the same defaults makes of the saved file, is that configuration with the prompt
templates of the default under the names it does not use: the merge keeps what is not
listed. A pointer to no node comes back as an empty node.
-/

namespace JiuwenCore.Config

namespace AgentConfigStore

variable {lib : JsonLib} {nums : Numbers}

/-! ## Runs of a store -/

inductive StoreEvent where
  | registerDefault (config : AgentConfig)
  | load (walks : Walks)
  | upsert (walks : Walks) (disk : Disk) (cfg : AgentConfig)
  | upsertOverride (walks : Walks) (disk : Disk) (id : Str) (overrideJson : Json)
  | remove (walks : Walks) (disk : Disk) (id : Str)
  | save (walks : Walks) (disk : Disk)
  /-- The file is changed from outside. -/
  | edit (file : StoreFile)

def step (lib : JsonLib) (nums : Numbers) (s : AgentConfigStore) :
    StoreEvent → Option AgentConfigStore
  | .registerDefault config => some (s.registerDefault config)
  | .load walks => some (s.load lib nums walks).2
  | .upsert walks disk cfg => some (s.upsert lib nums walks disk cfg).2
  | .upsertOverride walks disk id overrideJson =>
      some (s.upsertOverride lib nums walks disk id overrideJson).2
  | .remove walks disk id => some (s.remove lib walks disk id)
  | .save walks disk => some (s.saveLocked lib walks disk)
  | .edit file => some { s with file }

/-- Every override is kept under the id it names. -/
def Keyed (s : AgentConfigStore) : Prop :=
  ∀ id j, s.overrides.get? id = some j → id ≠ [] ∧ j.stringMember (lit "id") = some id

theorem Keyed.insert {s : AgentConfigStore} (h : s.Keyed) {id : Str} {j : Json} (hid : id ≠ [])
    (hj : j.stringMember (lit "id") = some id) :
    ({ s with overrides := s.overrides.insert id j } : AgentConfigStore).Keyed := by
  intro id' j' hget
  rw [OrderedMap.get?_insert] at hget
  split at hget
  · rename_i heq
    cases hget
    subst heq
    exact ⟨hid, hj⟩
  · exact h id' j' hget

theorem fileOverride_eq_some {items : List Json} {id : Str} {j : Json}
    (h : fileOverride items id = some j) :
    id ≠ [] ∧ j ∈ items ∧ j.stringMember (lit "id") = some id := by
  unfold fileOverride at h
  split at h
  · cases h
  · rename_i hid
    have hmem := List.mem_of_getLast? h
    rw [List.mem_filter, decide_eq_true_iff] at hmem
    exact ⟨hid, hmem⟩

/-- A member that is set is found. -/
theorem find?_updateEntries (key : Str) (j : Json) (members : List (Str × Json)) :
    (OrderedMap.updateEntries key .null (fun _ => j) members).find? (fun entry => entry.1 = key) =
      some (key, j) := by
  induction members with
  | nil => simp [OrderedMap.updateEntries]
  | cons entry rest ih =>
      rcases entry with ⟨k, v⟩
      unfold OrderedMap.updateEntries
      split
      · simp
      · split
        · rename_i hk
          simp [hk]
        · rename_i hk
          rw [List.find?_cons_of_neg (by simpa using hk)]
          exact ih

theorem clean_id (id : Str) (j : Json) : (clean id j).stringMember (lit "id") = some id := by
  cases j with
  | obj members =>
      simp only [clean, Json.stringMember, Json.member, find?_updateEntries]
      rfl
  | null | bool _ | int _ | float _ | str _ | arr _ =>
      simp [clean, Json.stringMember, Json.member, Json.getString]

theorem agentConfigToJson_id (cfg : AgentConfig) :
    (agentConfigToJson lib nums cfg).stringMember (lit "id") = some cfg.id := rfl

@[simp] theorem overrides_saveLocked (walks : Walks) (disk : Disk) (s : AgentConfigStore) :
    (saveLocked lib walks disk s).overrides = s.overrides := by
  unfold saveLocked
  split <;> rfl

@[simp] theorem current_saveLocked (walks : Walks) (disk : Disk) (s : AgentConfigStore) :
    (saveLocked lib walks disk s).current = s.current := by
  unfold saveLocked
  split <;> rfl

/-- What `Upsert` leaves of the store: the merge of what it writes itself always succeeds. -/
theorem upsert_eq {cfg : AgentConfig} (hid : cfg.id ≠ []) (walks : Walks) (disk : Disk)
    (s : AgentConfigStore) :
    (upsert lib nums walks disk cfg s).2 = saveLocked lib walks disk
      { s with
        overrides := s.overrides.insert cfg.id (agentConfigToJson lib nums cfg)
        current := s.current.insert cfg.id
          (match s.defaults.get? cfg.id with
            | some config => cfg.onto nums.again config
            | none => cfg) } := by
  rw [upsert, if_neg hid]
  dsimp only
  cases s.defaults.get? cfg.id with
  | some config =>
      dsimp only
      rw [mergeAgentConfigFromJson_toJson]
  | none => rfl

/-- What `Upsert` and `UpsertOverride` make of the overrides, whether they throw or not. -/
theorem overrides_upsert (walks : Walks) (disk : Disk) (cfg : AgentConfig) (s : AgentConfigStore) :
    (upsert lib nums walks disk cfg s).2.overrides =
      if cfg.id = [] then s.overrides
      else s.overrides.insert cfg.id (agentConfigToJson lib nums cfg) := by
  split
  · rename_i hid
    rw [upsert, if_pos hid]
  · rename_i hid
    rw [upsert_eq hid, overrides_saveLocked]

theorem overrides_upsertOverride (walks : Walks) (disk : Disk) (id : Str) (overrideJson : Json)
    (s : AgentConfigStore) :
    (upsertOverride lib nums walks disk id overrideJson s).2.overrides =
      if id = [] then s.overrides else s.overrides.insert id (clean id overrideJson) := by
  unfold upsertOverride
  split
  · rfl
  · dsimp only
    split
    · rfl
    · rw [overrides_saveLocked]

theorem step_keyed {s s' : AgentConfigStore} {e : StoreEvent} (h : s.Keyed)
    (hstep : step lib nums s e = some s') : s'.Keyed := by
  cases e with
  | registerDefault config =>
      rw [← Option.some.inj hstep, registerDefault]
      split <;> exact h
  | load walks =>
      rw [← Option.some.inj hstep, load_state]
      intro id j hget
      dsimp only at hget
      rw [get?_readOverrides] at hget
      have hfile := fileOverride_eq_some ((Option.or_eq_some_iff.mp hget).resolve_right fun hempty =>
        by cases hempty.2)
      exact ⟨hfile.1, hfile.2.2⟩
  | upsert walks disk cfg =>
      rw [← Option.some.inj hstep]
      unfold Keyed
      rw [overrides_upsert]
      split
      · exact h
      · rename_i hid
        exact h.insert hid (agentConfigToJson_id cfg)
  | upsertOverride walks disk id overrideJson =>
      rw [← Option.some.inj hstep]
      unfold Keyed
      rw [overrides_upsertOverride]
      split
      · exact h
      · rename_i hid
        exact h.insert hid (clean_id id overrideJson)
  | remove walks disk id =>
      rw [← Option.some.inj hstep]
      unfold Keyed
      rw [remove, overrides_saveLocked]
      intro id' j hget
      dsimp only at hget
      rw [OrderedMap.get?_erase] at hget
      split at hget
      · cases hget
      · exact h id' j hget
  | save walks disk =>
      rw [← Option.some.inj hstep]
      unfold Keyed
      rw [overrides_saveLocked]
      exact h
  | edit file =>
      rw [← Option.some.inj hstep]
      exact h

/-- In every state a store gets into, the overrides are kept under their ids. -/
theorem keyed_of_run {s : AgentConfigStore} (h : Run (step lib nums) AnyStep {} s) : s.Keyed := by
  apply h.invariant
  · intro id j hget
    cases hget
  · intro s e s' hkeyed _ hstep
    exact step_keyed hkeyed hstep

/-! ## Reading what was saved -/

/-- The library can hold and print every override. -/
def Held (overrides : StrMap Json) : Prop :=
  ∀ id j, overrides.get? id = some j → j.regular = true ∧ j.Utf8Only

/-- The items of a file that is saved. -/
def savedItems (walks : Walks) (overrides : StrMap Json) : List Json :=
  (walks.overrides overrides).map (·.2)

theorem mem_savedItems {walks : Walks} {overrides : StrMap Json} {j : Json} :
    j ∈ savedItems walks overrides ↔ ∃ id, overrides.get? id = some j := by
  rw [savedItems, List.mem_map]
  constructor
  · rintro ⟨entry, hentry, rfl⟩
    exact ⟨entry.1, (overrides.mem_entries_iff entry).mp
      ((walks.overrides_perm overrides).subset hentry)⟩
  · rintro ⟨id, hget⟩
    exact ⟨(id, j), (walks.overrides_perm overrides).symm.subset
      ((overrides.mem_entries_iff (id, j)).mpr hget), rfl⟩

/-- The last entry of an agent in a saved file is its override. -/
theorem fileOverride_savedItems {s : AgentConfigStore} (h : s.Keyed) (walks : Walks) (id : Str) :
    fileOverride (savedItems walks s.overrides) id = s.overrides.get? id := by
  have hitem {j : Json} (hmem : j ∈ savedItems walks s.overrides)
      (hname : j.stringMember (lit "id") = some id) : s.overrides.get? id = some j := by
    rcases mem_savedItems.mp hmem with ⟨id', hget⟩
    have hid := (h id' j hget).2
    rw [hname, Option.some.injEq] at hid
    rw [hid, hget]
  cases hfile : fileOverride (savedItems walks s.overrides) id with
  | some j =>
      have hfound := fileOverride_eq_some hfile
      exact (hitem hfound.2.1 hfound.2.2).symm
  | none =>
      cases hget : s.overrides.get? id with
      | none => rfl
      | some j =>
          have hkeyed := h id j hget
          rw [fileOverride, if_neg hkeyed.1, List.getLast?_eq_none_iff,
            List.filter_eq_nil_iff] at hfile
          have hmem : j ∈ savedItems walks s.overrides := mem_savedItems.mpr ⟨id, hget⟩
          exact absurd (by simpa using hkeyed.2) (hfile j hmem)

/-- Reading the items of a saved file gives back its overrides. -/
theorem readOverrides_savedItems {s : AgentConfigStore} (h : s.Keyed) (walks : Walks) :
    readOverrides (savedItems walks s.overrides) OrderedMap.empty = (true, s.overrides) := by
  have hgood : ∀ item ∈ savedItems walks s.overrides, badId item = false := by
    intro item hitem
    rcases mem_savedItems.mp hitem with ⟨id, hget⟩
    have hname := (h id item hget).2
    rw [Json.stringMember, Option.bind_eq_some_iff] at hname
    rcases hname with ⟨v, hv, hstring⟩
    rw [badId, hv]
    simp only [hstring, Option.isNone_some]
  apply Prod.ext
  · rw [readOverrides_ok, List.all_eq_true]
    intro item hitem
    rw [hgood item hitem]
    rfl
  · apply OrderedMap.ext_get?
    intro id
    have hall : readable (savedItems walks s.overrides) = savedItems walks s.overrides := by
      rw [readable, List.takeWhile_eq_self_iff]
      intro item hitem
      rw [hgood item hitem]
      rfl
    rw [get?_readOverrides, hall, fileOverride_savedItems h]
    exact Option.or_none

theorem root_held {walks : Walks} {overrides : StrMap Json} (h : Held overrides) :
    (root (savedItems walks overrides)).regular = true ∧
      (root (savedItems walks overrides)).Utf8Only := by
  have hitems : ∀ item ∈ savedItems walks overrides, item.regular = true ∧ item.Utf8Only := by
    intro item hitem
    rcases mem_savedItems.mp hitem with ⟨id, hget⟩
    exact h id item hget
  have harr : (Json.arr (savedItems walks overrides)).regular = true ∧
      (Json.arr (savedItems walks overrides)).Utf8Only := by
    rw [Json.regular_arr, Json.utf8Only_arr]
    exact ⟨fun item hitem => (hitems item hitem).1, fun item hitem => (hitems item hitem).2⟩
  rw [root, Json.regular_obj, Json.utf8Only_obj]
  simp only [List.forall_mem_cons]
  refine ⟨⟨of_decide_eq_true rfl, harr.1, rfl, by simp⟩, ⟨by decide, harr.2⟩, ⟨by decide, Json.utf8Only_int⟩,
    by simp⟩

/-- The store after a restart with the same defaults. -/
def restarted (s : AgentConfigStore) : AgentConfigStore := { defaults := s.defaults, file := s.file }

/-- A restarted store loads the configurations of what was saved. -/
theorem load_restarted (hlib : lib.Faithful) {s : AgentConfigStore} (h : s.Keyed)
    (hheld : Held s.overrides) (walks walks' : Walks) :
    (load lib nums walks' (saveLocked lib walks .works s).restarted).1 =
      if (effective lib nums walks' s.defaults s.overrides).1 then
        some (effective lib nums walks' s.defaults s.overrides).2
      else none := by
  have hroot : (root (savedItems walks s.overrides)).regular = true ∧
      (root (savedItems walks s.overrides)).Utf8Only := root_held hheld
  obtain ⟨text, htext⟩ := Option.isSome_iff_exists.mp ((hlib.dumpIndented_isSome 2 _).mpr hroot.2)
  have hparse := hlib.parse_dumpIndented 2 _ text hroot.1 htext
  have hsaved : saveLocked lib walks .works s = { s with file := .text text } := by
    rw [savedItems] at htext
    rw [saveLocked, htext]
    rfl
  have hagents : agents (readFileLocked lib (.text text)) = savedItems walks s.overrides := by
    rw [readFileLocked, hparse]
    rfl
  rw [hsaved, restarted, load]
  simp only [hagents, readOverrides_savedItems h]
  split
  · rename_i heffective
    rw [heffective]
    rfl
  · rename_i heffective
    rw [heffective]
    rfl

theorem fillIds_ok (config : Str → Option AgentConfig) (ids : List Str)
    (out : StrMap AgentConfig) :
    (fillIds config ids out).1 = ids.all fun id => (config id).isSome := by
  induction ids generalizing out with
  | nil => rfl
  | cons id rest ih =>
      simp only [fillIds, List.map_cons, fill, List.all_cons] at ih ⊢
      cases config id with
      | none => rfl
      | some cfg => exact ih _

/-- An agent is loaded if it has a default or an override. -/
theorem mem_loadOrder (walks : Walks) (defaults : StrMap AgentConfig) (overrides : StrMap Json)
    (id : Str) : id ∈ loadOrder walks defaults overrides ↔
      (defaults.get? id).isSome ∨ (overrides.get? id).isSome := by
  have hdefaults : id ∈ (walks.configs defaults).map (·.1) ↔ (defaults.get? id).isSome := by
    rw [((walks.configs_perm defaults).map _).mem_iff, ← OrderedMap.mem_keys_iff]
    rfl
  have hothers : id ∈ ((walks.overrides overrides).filter
      fun entry => (defaults.get? entry.1).isNone).map (·.1) ↔
        (overrides.get? id).isSome ∧ defaults.get? id = none := by
    rw [(((walks.overrides_perm overrides).filter _).map _).mem_iff, ← OrderedMap.mem_keys_iff]
    simp only [OrderedMap.keys, List.mem_map, List.mem_filter, Option.isNone_iff_eq_none]
    constructor
    · rintro ⟨entry, ⟨hentry, hnone⟩, rfl⟩
      exact ⟨⟨entry, hentry, rfl⟩, hnone⟩
    · rintro ⟨⟨entry, hentry, rfl⟩, hnone⟩
      exact ⟨entry, ⟨hentry, hnone⟩, rfl⟩
  rw [loadOrder, List.mem_append, hdefaults, hothers]
  cases defaults.get? id <;> simp

/-! ## A configuration that is kept -/

/-- What `Get` returns of a configuration that was upserted. -/
theorem get_upsert {cfg : AgentConfig} (hid : cfg.id ≠ []) (hvalid : cfg.Valid lib nums)
    (walks : Walks) (disk : Disk) (s : AgentConfigStore) :
    (upsert lib nums walks disk cfg s).2.get cfg.id =
      some (match s.defaults.get? cfg.id with
        | some config => cfg.restored config
        | none => cfg) := by
  rw [upsert_eq hid, get, current_saveLocked, OrderedMap.get?_insert, if_pos rfl]
  cases s.defaults.get? cfg.id with
  | some config => exact congrArg some (AgentConfig.onto_again lib nums hvalid config)
  | none => rfl

/-- The overrides of the other agents can be printed, read back and merged. -/
def OthersLoad (lib : JsonLib) (nums : Numbers) (s : AgentConfigStore) (id : Str) : Prop :=
  ∀ other j, other ≠ id → s.overrides.get? other = some j →
    (j.regular = true ∧ j.Utf8Only) ∧ (mergeAgentConfigFromJson lib nums j (s.base other)).isSome

theorem configOf_insert {s : AgentConfigStore} {cfg : AgentConfig} (hvalid : cfg.Valid lib nums) :
    configOf lib nums s.defaults (s.overrides.insert cfg.id (agentConfigToJson lib nums cfg))
      cfg.id = some (cfg.restored (s.base cfg.id)) := by
  rw [configOf, OrderedMap.get?_insert, if_pos rfl]
  dsimp only
  rw [mergeAgentConfigFromJson_toJson, AgentConfig.onto_again lib nums hvalid, base]

/-- Every agent is loaded. -/
theorem configOf_isSome {s : AgentConfigStore} {cfg : AgentConfig} (hvalid : cfg.Valid lib nums)
    (hothers : OthersLoad lib nums s cfg.id) (walks : Walks) :
    ∀ id ∈ loadOrder walks s.defaults
        (s.overrides.insert cfg.id (agentConfigToJson lib nums cfg)),
      (configOf lib nums s.defaults
        (s.overrides.insert cfg.id (agentConfigToJson lib nums cfg)) id).isSome = true := by
  intro id hid
  by_cases hown : id = cfg.id
  · rw [hown, configOf_insert hvalid]
    rfl
  · rw [mem_loadOrder, OrderedMap.get?_insert, if_neg hown] at hid
    rw [configOf, OrderedMap.get?_insert, if_neg hown]
    cases hget : s.overrides.get? id with
    | some j => exact (hothers id j hown hget).2
    | none => exact hid.resolve_right (by simp [hget])

/-- What a store with the same defaults loads of a configuration that was upserted. -/
theorem load_upsert (hlib : lib.Faithful) {s : AgentConfigStore} (hkeyed : s.Keyed)
    {cfg : AgentConfig} (hid : cfg.id ≠ []) (hvalid : cfg.Valid lib nums)
    (hothers : OthersLoad lib nums s cfg.id) (walks walks' : Walks) :
    ∃ configs,
      (load lib nums walks' (upsert lib nums walks .works cfg s).2.restarted).1 = some configs ∧
        configs.get? cfg.id = some (cfg.restored (s.base cfg.id)) := by
  have hheld : Held (s.overrides.insert cfg.id (agentConfigToJson lib nums cfg)) := by
    intro id j hget
    rw [OrderedMap.get?_insert] at hget
    split at hget
    · cases hget
      exact agentConfigToJson_regular lib nums hvalid
    · rename_i hother
      exact (hothers id j hother hget).1
  have hinsert : ∀ current, ({ s with
      overrides := s.overrides.insert cfg.id (agentConfigToJson lib nums cfg)
      current } : AgentConfigStore).Keyed :=
    fun _ => Keyed.insert hkeyed hid (agentConfigToJson_id cfg)
  have hall := configOf_isSome hvalid hothers walks'
  rw [upsert_eq hid, load_restarted hlib (hinsert _) hheld, effective_eq, fillIds_ok,
    if_pos (List.all_eq_true.mpr hall)]
  refine ⟨_, rfl, ?_⟩
  have hloaded : cfg.id ∈ loadOrder walks' s.defaults
      (s.overrides.insert cfg.id (agentConfigToJson lib nums cfg)) := by
    rw [mem_loadOrder, OrderedMap.get?_insert, if_pos rfl]
    exact Or.inr rfl
  rw [get?_fillIds, List.takeWhile_eq_self_iff.mpr hall, if_pos hloaded]
  exact configOf_insert hvalid

/-- A configuration of nothing but an id and free parameters. -/
theorem valid_named {id : Str} (hid : Utf8.Text id) {params : ConfigNode}
    (hparams : ConfigValue.FieldsValid params.fields) :
    AgentConfig.Valid lib nums { id := id, modelConfig := { extraParams := params } } := by
  simp only [AgentConfig.Valid, Record.Valid, agentConfigRecord, contextConfigRecord,
    dreamConfigRecord, memoryConfigRecord, modelConfigRecord, retryPolicyRecord,
    idleConsolidationSeconds, extraParams, promptTemplates, Field.value, Field.record,
    List.forall_mem_cons, Codec.string, Codec.bool, Codec.int, Codec.double, Codec.strings,
    Codec.enum, workMode, formatType, storageType, toolDisclosureMode, List.not_mem_nil,
    implies_true, and_true, true_and, false_implies]
  repeat' apply And.intro
  all_goals first
    | decide
    | assumption
    | exact trivial

/-- A configuration that is upserted is what `Get` returns and what is loaded after a restart
with the same defaults, but for the prompt templates of the default under the names it does
not use, and for the pointers to no node. -/
theorem upsert_restores (hlib : lib.Faithful) {s : AgentConfigStore}
    (h : Run (step lib nums) AnyStep {} s) {cfg : AgentConfig} (hid : cfg.id ≠ [])
    (hvalid : cfg.Valid lib nums) (walks walks' : Walks) (disk : Disk) :
    (upsert lib nums walks disk cfg s).2.get cfg.id =
      some (match s.defaults.get? cfg.id with
        | some config => cfg.restored config
        | none => cfg) ∧
    (disk = .works → OthersLoad lib nums s cfg.id → ∃ configs,
      (load lib nums walks' (upsert lib nums walks disk cfg s).2.restarted).1 = some configs ∧
        configs.get? cfg.id = some (cfg.restored (s.base cfg.id))) := by
  refine ⟨get_upsert hid hvalid walks disk s, ?_⟩
  rintro rfl hothers
  exact load_upsert hlib (keyed_of_run h) hid hvalid hothers walks walks'

/-- A configuration without a default comes back whole. -/
theorem upsert_restores_demo :
    (upsert readerLib sampleNumbers .sorted .works { id := lit "demo" } {}).2.get (lit "demo") =
      some { id := lit "demo" } ∧
    ∃ configs,
      (load readerLib sampleNumbers .sorted
        (upsert readerLib sampleNumbers .sorted .works { id := lit "demo" } {}).2.restarted).1 =
          some configs ∧
      configs.get? (lit "demo") =
        some (AgentConfig.restored { id := lit "demo" } { id := lit "demo" }) := by
  have hvalid : AgentConfig.Valid readerLib sampleNumbers { id := lit "demo" } :=
    valid_named (by decide) trivial
  have hrestores := upsert_restores readerLib_faithful .start (by decide) hvalid .sorted .sorted
    .works
  exact ⟨hrestores.1, hrestores.2 rfl fun _ _ _ hget => by cases hget⟩

/-- A default with a prompt template. -/
def demoDefault : AgentConfig where
  id := lit "demo"
  promptTemplates := OrderedMap.empty.insert (lit "sys") {}

/-- A removed prompt template is back at once, and a pointer to no node does not survive a
restart. -/
theorem upsert_not_restored :
    (∃ config cfg : AgentConfig, config.id = cfg.id ∧ cfg.promptTemplates = OrderedMap.empty ∧
      (upsert readerLib sampleNumbers .sorted .works cfg
        (registerDefault {} config)).2.get cfg.id ≠ some cfg) ∧
    ∃ cfg : AgentConfig, cfg.Valid readerLib sampleNumbers ∧ ∃ configs,
      (load readerLib sampleNumbers .sorted
        (upsert readerLib sampleNumbers .sorted .works cfg {}).2.restarted).1 = some configs ∧
      configs.get? cfg.id ≠ some cfg := by
  constructor
  · refine ⟨demoDefault, { id := lit "demo" }, rfl, rfl, fun h => ?_⟩
    have hdefault : (registerDefault {} demoDefault).defaults.get? (lit "demo") =
        some demoDefault := rfl
    have hvalid : AgentConfig.Valid readerLib sampleNumbers { id := lit "demo" } :=
      valid_named (by decide) trivial
    rw [get_upsert (by decide) hvalid, hdefault] at h
    have htemplates := congrArg (fun cfg => cfg.promptTemplates.get? (lit "sys")) (Option.some.inj h)
    dsimp only at htemplates
    rw [AgentConfig.restored_promptTemplates] at htemplates
    cases htemplates
  · have hvalid : AgentConfig.Valid readerLib sampleNumbers
        { id := lit "demo", modelConfig := { extraParams := ⟨[(lit "node", .none)], rfl⟩ } } :=
      valid_named (by decide) ⟨⟨by decide, trivial⟩, trivial⟩
    obtain ⟨configs, hload, hget⟩ := load_upsert readerLib_faithful (s := {})
      (fun _ _ h => by cases h) (by decide) hvalid (fun _ _ _ h => by cases h) .sorted .sorted
    refine ⟨_, hvalid, configs, hload, fun h => ?_⟩
    rw [hget] at h
    have hfields := congrArg (fun cfg => cfg.modelConfig.extraParams.fields) (Option.some.inj h)
    cases hfields

end AgentConfigStore

end JiuwenCore.Config
