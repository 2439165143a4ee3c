import JiuwenCore.Config.ConfigJson
import JiuwenCore.Lib.Runs

/-!
# The store of agent configurations

`AgentConfigStore`: the defaults the code registers, the overrides of the file, and the
configurations they make. An operation that throws leaves the maps as they are at that
point; the order an unordered map is walked in is an argument.
-/

namespace JiuwenCore.Config

/-- The file the overrides are kept in. -/
inductive StoreFile where
  | missing
  /-- It is there, but cannot be looked up or opened. -/
  | unreadable
  | text (content : Str)
  deriving DecidableEq, Repr

/-- `AgentConfigStore` with its file. -/
structure AgentConfigStore where
  defaults : StrMap AgentConfig := OrderedMap.empty
  current : StrMap AgentConfig := OrderedMap.empty
  overrides : StrMap Json := OrderedMap.empty
  file : StoreFile := .missing

/-- The orders in which the unordered maps are walked. -/
structure Walks where
  configs : StrMap AgentConfig → List (Str × AgentConfig)
  overrides : StrMap Json → List (Str × Json)
  configs_perm : ∀ m, (configs m).Perm m.entries
  overrides_perm : ∀ m, (overrides m).Perm m.entries

def Walks.sorted : Walks where
  configs := (·.entries)
  overrides := (·.entries)
  configs_perm := fun _ => .refl _
  overrides_perm := fun _ => .refl _

/-- What becomes of the file when a text is written beside it and renamed to it. -/
abbrev Disk := Str → StoreFile → StoreFile

/-- The text arrives. -/
def Disk.works : Disk := fun text _ => .text text

/-! ## Operations -/

namespace AgentConfigStore

variable (lib : JsonLib) (nums : Numbers)

/-- `RegisterDefault`. -/
def registerDefault (s : AgentConfigStore) (config : AgentConfig) : AgentConfigStore :=
  if config.id = [] then s else { s with defaults := s.defaults.insert config.id config }

/-- `ReadFileLocked`: `null` for a file that is missing, cannot be read or is no JSON. -/
def readFileLocked (file : StoreFile) : Json :=
  match file with
  | .missing | .unreadable => .null
  | .text content => (lib.parse content).getD .null

/-- The entries of a file. -/
def agents (root : Json) : List Json :=
  match root.member (lit "agents") with
  | some (.arr items) => items
  | _ => []

/-- The overrides of the entries; an `id` that is no string throws. -/
def readOverrides : List Json → StrMap Json → Bool × StrMap Json
  | [], out => (true, out)
  | item :: rest, out =>
      match item.member (lit "id") with
      | none => readOverrides rest out
      | some v =>
          match v.getString with
          | none => (false, out)
          | some id => readOverrides rest (if id = [] then out else out.insert id item)

/-- A loop that sets one configuration after the other; it ends where one throws. -/
@[grind =] def fill {ν : Type} (config : Str → ν → Option AgentConfig) :
    List (Str × ν) → StrMap AgentConfig → Bool × StrMap AgentConfig
  | [], out => (true, out)
  | (id, x) :: rest, out =>
      match config id x with
      | none => (false, out)
      | some cfg => fill config rest (out.insert id cfg)

/-- A default under its override. -/
def overDefault (overrides : StrMap Json) (id : Str) (config : AgentConfig) :
    Option AgentConfig :=
  match overrides.get? id with
  | some override => mergeAgentConfigFromJson lib nums override config
  | none => some config

/-- An override without a default. -/
def overNothing (id : Str) (override : Json) : Option AgentConfig :=
  mergeAgentConfigFromJson lib nums override { id := id }

/-- The configurations of `Load`. -/
def effective (walks : Walks) (defaults : StrMap AgentConfig) (overrides : StrMap Json) :
    Bool × StrMap AgentConfig :=
  match fill (overDefault lib nums overrides) (walks.configs defaults) OrderedMap.empty with
  | (false, current) => (false, current)
  | (true, current) =>
      fill (overNothing lib nums)
        ((walks.overrides overrides).filter fun entry => (defaults.get? entry.1).isNone) current

/-- `Load`: `none` where it throws. -/
def load (walks : Walks) (s : AgentConfigStore) :
    Option (StrMap AgentConfig) × AgentConfigStore :=
  match readOverrides (agents (readFileLocked lib s.file)) OrderedMap.empty with
  | (false, overrides) => (none, { s with overrides, current := OrderedMap.empty })
  | (true, overrides) =>
      match effective lib nums walks s.defaults overrides with
      | (false, current) => (none, { s with overrides, current })
      | (true, current) => (some current, { s with overrides, current })

def get (s : AgentConfigStore) (id : Str) : Option AgentConfig := s.current.get? id

/-- The file of some overrides, in the order they are walked in. -/
def root (items : List Json) : Json := .obj [(lit "agents", .arr items), (lit "version", .int 1)]

/-- `SaveLocked`: an exception ends in the log. -/
def saveLocked (walks : Walks) (disk : Disk) (s : AgentConfigStore) : AgentConfigStore :=
  match lib.dumpIndented 2 (root ((walks.overrides s.overrides).map (·.2))) with
  | some text => { s with file := disk text s.file }
  | none => s

/-- `Upsert`; the Boolean is `false` where it throws. -/
def upsert (walks : Walks) (disk : Disk) (cfg : AgentConfig) (s : AgentConfigStore) :
    Bool × AgentConfigStore :=
  if cfg.id = [] then (true, s)
  else
    let override := agentConfigToJson lib nums cfg
    let s := { s with overrides := s.overrides.insert cfg.id override }
    let merged :=
      match s.defaults.get? cfg.id with
      | some config => mergeAgentConfigFromJson lib nums override config
      | none => some cfg
    match merged with
    | none => (false, s)
    | some merged =>
        (true, saveLocked lib walks disk { s with current := s.current.insert cfg.id merged })

/-- A JSON with its id: anything but an object counts as an empty one. -/
def clean (id : Str) : Json → Json
  | .obj members => .obj (OrderedMap.updateEntries (lit "id") .null (fun _ => .str id) members)
  | _ => .obj [(lit "id", .str id)]

/-- What the override of an agent is merged into. -/
def base (s : AgentConfigStore) (id : Str) : AgentConfig :=
  (s.defaults.get? id).getD { id := id }

/-- `UpsertOverride`; the Boolean is `false` where it throws. -/
def upsertOverride (walks : Walks) (disk : Disk) (id : Str) (overrideJson : Json)
    (s : AgentConfigStore) : Bool × AgentConfigStore :=
  if id = [] then (true, s)
  else
    let s := { s with overrides := s.overrides.insert id (clean id overrideJson) }
    match mergeAgentConfigFromJson lib nums (clean id overrideJson) (s.base id) with
    | none => (false, s)
    | some merged =>
        (true, saveLocked lib walks disk { s with current := s.current.insert id merged })

/-- `Remove`. -/
def remove (walks : Walks) (disk : Disk) (id : Str) (s : AgentConfigStore) : AgentConfigStore :=
  let current :=
    match s.defaults.get? id with
    | some config => s.current.insert id config
    | none => s.current.erase id
  saveLocked lib walks disk { s with overrides := s.overrides.erase id, current }

/-! ## What a load makes of a file -/

/-- An `id` that is no string. -/
def badId (item : Json) : Bool :=
  match item.member (lit "id") with
  | some v => v.getString.isNone
  | none => false

/-- The entries ahead of the first one with a bad id. -/
def readable (items : List Json) : List Json := items.takeWhile fun item => !badId item

/-- The last entry that names an agent. -/
def fileOverride (items : List Json) (id : Str) : Option Json :=
  if id = [] then none
  else (items.filter fun item => item.stringMember (lit "id") = some id).getLast?

theorem fileOverride_cons (item : Json) (rest : List Json) (id : Str) :
    fileOverride (item :: rest) id = (fileOverride rest id).or
      (if id ≠ [] ∧ item.stringMember (lit "id") = some id then some item else none) := by
  unfold fileOverride
  by_cases hid : id = []
  · simp [hid]
  · by_cases hitem : item.stringMember (lit "id") = some id
    · simp only [hid, hitem, List.filter_cons, List.getLast?_cons, if_false, decide_true, if_true,
        ne_eq, not_false_eq_true, and_self]
      cases (rest.filter fun item => item.stringMember (lit "id") = some id).getLast? <;> rfl
    · simp [hid, hitem]

theorem readOverrides_ok (items : List Json) (out : StrMap Json) :
    (readOverrides items out).1 = items.all fun item => !badId item := by
  induction items generalizing out with
  | nil => rfl
  | cons item rest ih =>
      rw [readOverrides, List.all_cons, badId]
      cases item.member (lit "id") with
      | none => exact ih out
      | some v =>
          simp only
          cases v.getString with
          | none => rfl
          | some id => exact ih _

theorem get?_readOverrides (items : List Json) (out : StrMap Json) (id : Str) :
    (readOverrides items out).2.get? id = (fileOverride (readable items) id).or (out.get? id) := by
  induction items generalizing out with
  | nil =>
      unfold readable fileOverride
      split <;> rfl
  | cons item rest ih =>
      rw [readOverrides, readable, List.takeWhile_cons, badId]
      cases hitem : item.member (lit "id") with
      | none =>
          have hname : item.stringMember (lit "id") ≠ some id := by simp [Json.stringMember, hitem]
          simp only [Bool.not_false, if_true]
          rw [fileOverride_cons, if_neg fun h => hname h.2, Option.or_none]
          exact ih out
      | some v =>
          cases hv : v.getString with
          | none =>
              simp only [hv, Option.isNone_none, Bool.not_true, Bool.false_eq_true, if_false]
              unfold fileOverride
              split <;> rfl
          | some name =>
              have hname : item.stringMember (lit "id") = some name := by
                rw [Json.stringMember, hitem, Option.bind_some, hv]
              simp only [hv, Option.isNone_some, Bool.not_false, if_true]
              rw [ih, fileOverride_cons, hname, Option.or_assoc]
              congr 1
              by_cases hempty : name = []
              · rw [if_pos hempty, if_neg, Option.none_or]
                rintro ⟨hid, heq⟩
                exact hid ((Option.some.inj heq).symm.trans hempty)
              · rw [if_neg hempty, OrderedMap.get?_insert]
                by_cases hid : id = name
                · subst hid
                  rw [if_pos rfl, if_pos ⟨hempty, rfl⟩, Option.some_or]
                · rw [if_neg hid, if_neg fun h => hid (Option.some.inj h.2).symm, Option.none_or]

/-- A loop that depends on the ids alone. -/
def fillIds (config : Str → Option AgentConfig) (ids : List Str) (out : StrMap AgentConfig) :
    Bool × StrMap AgentConfig :=
  fill (fun id (_ : Unit) => config id) (ids.map fun id => (id, ())) out

theorem fill_eq {ν : Type} {config : Str → ν → Option AgentConfig} {byId : Str → Option AgentConfig}
    {entries : List (Str × ν)} (h : ∀ entry ∈ entries, config entry.1 entry.2 = byId entry.1)
    (out : StrMap AgentConfig) :
    fill config entries out = fillIds byId (entries.map (·.1)) out := by
  induction entries generalizing out with
  | nil => rfl
  | cons entry rest ih =>
      rw [List.forall_mem_cons] at h
      rw [fill, h.1, fillIds, List.map_cons, List.map_cons, fill]
      cases byId entry.1 with
      | none => rfl
      | some cfg => exact ih h.2 _

theorem fillIds_append (config : Str → Option AgentConfig) (ids later : List Str)
    (out : StrMap AgentConfig) :
    fillIds config (ids ++ later) out =
      if (fillIds config ids out).1 then fillIds config later (fillIds config ids out).2
      else fillIds config ids out := by
  induction ids generalizing out with
  | nil => rfl
  | cons id rest ih =>
      simp only [fillIds, List.cons_append, List.map_cons, fill] at ih ⊢
      cases config id with
      | none => rfl
      | some cfg => exact ih _

theorem get?_fillIds (config : Str → Option AgentConfig) (ids : List Str)
    (out : StrMap AgentConfig) (id : Str) :
    (fillIds config ids out).2.get? id =
      if id ∈ ids.takeWhile fun id => (config id).isSome then config id else out.get? id := by
  induction ids generalizing out with
  | nil => rfl
  | cons first rest ih =>
      rw [fillIds, List.map_cons, fill, List.takeWhile_cons]
      cases hfirst : config first with
      | none => rfl
      | some cfg =>
          simp only [Option.isSome_some, if_true, List.mem_cons]
          simp only [fillIds] at ih
          rw [ih, OrderedMap.get?_insert]
          by_cases hid : id = first
          · simp [hid, hfirst]
          · simp [hid]

/-- The configuration of an agent by its id: the override over the base, without an override
the default. -/
def configOf (defaults : StrMap AgentConfig) (overrides : StrMap Json) (id : Str) :
    Option AgentConfig :=
  match overrides.get? id with
  | some override => mergeAgentConfigFromJson lib nums override ((defaults.get? id).getD { id := id })
  | none => defaults.get? id

/-- The agents in the order `Load` gets to them. -/
def loadOrder (walks : Walks) (defaults : StrMap AgentConfig) (overrides : StrMap Json) :
    List Str :=
  (walks.configs defaults).map (·.1) ++
    ((walks.overrides overrides).filter fun entry => (defaults.get? entry.1).isNone).map (·.1)

theorem effective_eq (walks : Walks) (defaults : StrMap AgentConfig) (overrides : StrMap Json) :
    effective lib nums walks defaults overrides =
      fillIds (configOf lib nums defaults overrides) (loadOrder walks defaults overrides)
        OrderedMap.empty := by
  have hdefaults : ∀ entry ∈ walks.configs defaults,
      overDefault lib nums overrides entry.1 entry.2 =
        configOf lib nums defaults overrides entry.1 := by
    intro entry hentry
    have hget := (defaults.mem_entries_iff entry).mp ((walks.configs_perm defaults).subset hentry)
    rw [overDefault, configOf, hget, Option.getD_some]
  have hothers : ∀ entry ∈ (walks.overrides overrides).filter
      fun entry => (defaults.get? entry.1).isNone,
      overNothing lib nums entry.1 entry.2 = configOf lib nums defaults overrides entry.1 := by
    intro entry hentry
    rw [List.mem_filter, Option.isNone_iff_eq_none] at hentry
    have hget := (overrides.mem_entries_iff entry).mp
      ((walks.overrides_perm overrides).subset hentry.1)
    rw [overNothing, configOf, hget, hentry.2, Option.getD_none]
  rw [loadOrder, fillIds_append, effective, fill_eq hdefaults]
  split
  · rename_i hfirst
    rw [hfirst]
    rfl
  · rename_i hfirst
    rw [hfirst, fill_eq hothers]
    rfl

/-- The entries of the file of a store. -/
def fileAgents (s : AgentConfigStore) : List Json := agents (readFileLocked lib s.file)

theorem load_state (walks : Walks) (s : AgentConfigStore) :
    (load lib nums walks s).2 =
      { s with
        overrides := (readOverrides (s.fileAgents lib) OrderedMap.empty).2
        current :=
          if (readOverrides (s.fileAgents lib) OrderedMap.empty).1 then
            (effective lib nums walks s.defaults
              (readOverrides (s.fileAgents lib) OrderedMap.empty).2).2
          else OrderedMap.empty } := by
  rw [load, fileAgents]
  split
  · rename_i h
    rw [h]
    rfl
  · rename_i h
    rw [h]
    simp only [if_true]
    split
    · rename_i heffective
      rw [heffective]
    · rename_i heffective
      rw [heffective]

/-! ## What an operation that fails leaves -/

/-- The file cannot be read or is no JSON. -/
def CannotRead (file : StoreFile) : Prop :=
  match file with
  | .missing => False
  | .unreadable => True
  | .text content => lib.parse content = none

/-- The overrides are those of the file up to the first bad id; the configurations are none
after a bad id, and otherwise those of the agents ahead of the first one that throws. -/
structure LeftOver (walks : Walks) (s : AgentConfigStore) : Prop where
  overrides : ∀ id, s.overrides.get? id = fileOverride (readable (s.fileAgents lib)) id
  current : ∀ id, s.current.get? id =
    if (∀ item ∈ s.fileAgents lib, badId item = false) ∧
        id ∈ (loadOrder walks s.defaults s.overrides).takeWhile
          (fun id => (configOf lib nums s.defaults s.overrides id).isSome)
    then configOf lib nums s.defaults s.overrides id else none

theorem get?_loaded (walks : Walks) (items : List Json) (defaults : StrMap AgentConfig)
    (overrides : StrMap Json) (id : Str) :
    (if (readOverrides items OrderedMap.empty).1 then
        (effective lib nums walks defaults overrides).2
      else OrderedMap.empty).get? id =
      if (∀ item ∈ items, badId item = false) ∧ id ∈ (loadOrder walks defaults overrides).takeWhile
          (fun id => (configOf lib nums defaults overrides id).isSome)
      then configOf lib nums defaults overrides id else none := by
  have hok : (readOverrides items OrderedMap.empty).1 = true ↔
      ∀ item ∈ items, badId item = false := by
    rw [readOverrides_ok, List.all_eq_true]
    simp only [Bool.not_eq_true']
  split
  · rename_i h
    have hall := hok.mp h
    rw [effective_eq, get?_fillIds]
    exact if_congr (and_iff_right hall).symm rfl rfl
  · rename_i h
    rw [if_neg fun hall => h (hok.mpr hall.1)]
    rfl

theorem load_unchanged_iff (walks : Walks) (s : AgentConfigStore) :
    (load lib nums walks s).2 = s ↔ LeftOver lib nums walks s := by
  have hoverrides : (readOverrides (s.fileAgents lib) OrderedMap.empty).2 = s.overrides ↔
      ∀ id, s.overrides.get? id = fileOverride (readable (s.fileAgents lib)) id := by
    constructor
    · intro h id
      rw [← h, get?_readOverrides]
      exact Option.or_none
    · intro h
      apply OrderedMap.ext_get?
      intro id
      rw [h, get?_readOverrides]
      exact Option.or_none
  rw [load_state]
  constructor
  · intro h
    have hkept := congrArg AgentConfigStore.overrides h
    have hcurrent := congrArg AgentConfigStore.current h
    dsimp only at hkept hcurrent
    refine ⟨hoverrides.mp hkept, fun id => ?_⟩
    rw [hkept] at hcurrent
    rw [← get?_loaded, hcurrent]
  · intro h
    have hkept := hoverrides.mpr h.overrides
    have hcurrent : (if (readOverrides (s.fileAgents lib) OrderedMap.empty).1 then
        (effective lib nums walks s.defaults s.overrides).2 else OrderedMap.empty) =
          s.current := by
      apply OrderedMap.ext_get?
      intro id
      rw [h.current, get?_loaded]
    rw [hkept, hcurrent]

theorem fileAgents_of_cannotRead {s : AgentConfigStore} (h : CannotRead lib s.file) :
    s.fileAgents lib = [] := by
  unfold CannotRead at h
  rw [fileAgents]
  split at h
  · exact h.elim
  · rename_i hfile
    rw [hfile]
    rfl
  · rename_i hfile
    rw [hfile, readFileLocked, h]
    rfl

theorem loadOrder_empty (walks : Walks) (defaults : StrMap AgentConfig) :
    (loadOrder walks defaults OrderedMap.empty).Perm defaults.keys := by
  have hnone : walks.overrides OrderedMap.empty = [] :=
    List.Perm.eq_nil (walks.overrides_perm OrderedMap.empty)
  rw [loadOrder, hnone]
  simp only [List.filter_nil, List.map_nil, List.append_nil]
  exact (walks.configs_perm defaults).map _

/-- Of a file that cannot be read, an empty store is left. -/
theorem leftOver_of_cannotRead (walks : Walks) {s : AgentConfigStore}
    (h : CannotRead lib s.file) :
    LeftOver lib nums walks s ↔ s.overrides = OrderedMap.empty ∧ s.current = s.defaults := by
  have hagents := fileAgents_of_cannotRead lib h
  have hcurrent (id : Str) :
      (if (∀ item ∈ s.fileAgents lib, badId item = false) ∧
          id ∈ (loadOrder walks s.defaults OrderedMap.empty).takeWhile
            (fun id => (configOf lib nums s.defaults OrderedMap.empty id).isSome)
        then configOf lib nums s.defaults OrderedMap.empty id else none) =
        s.defaults.get? id := by
    have hconfig (id : Str) :
        configOf lib nums s.defaults OrderedMap.empty id = s.defaults.get? id := rfl
    have hall : (loadOrder walks s.defaults OrderedMap.empty).takeWhile
        (fun id => (configOf lib nums s.defaults OrderedMap.empty id).isSome) =
          loadOrder walks s.defaults OrderedMap.empty := by
      rw [List.takeWhile_eq_self_iff]
      intro id hid
      rw [hconfig, ← OrderedMap.mem_keys_iff]
      exact (loadOrder_empty walks s.defaults).subset hid
    have hmem : (∀ item ∈ s.fileAgents lib, badId item = false) ∧
        id ∈ loadOrder walks s.defaults OrderedMap.empty ↔ (s.defaults.get? id).isSome := by
      rw [hagents, (loadOrder_empty walks s.defaults).mem_iff, OrderedMap.mem_keys_iff]
      simp
    rw [hall, hconfig, if_congr hmem rfl rfl]
    cases s.defaults.get? id <;> rfl
  constructor
  · intro hleft
    have hempty : s.overrides = OrderedMap.empty := by
      apply OrderedMap.ext_get?
      intro id
      rw [hleft.overrides, hagents]
      unfold readable fileOverride
      split <;> rfl
    refine ⟨hempty, OrderedMap.ext_get? fun id => ?_⟩
    rw [hleft.current, hempty]
    exact hcurrent id
  · rintro ⟨hempty, hdefaults⟩
    constructor
    · intro id
      rw [hempty, hagents]
      unfold readable fileOverride
      split <;> rfl
    · intro id
      rw [hdefaults, hempty]
      exact (hcurrent id).symm

/-- `Load` and `UpsertOverride` change their maps before the steps that can fail: they leave
a store as it was exactly if it holds what they leave already. -/
theorem failed_unchanged_iff (walks : Walks) (disk : Disk) (s : AgentConfigStore) :
    (CannotRead lib s.file → ((load lib nums walks s).2 = s ↔
      s.overrides = OrderedMap.empty ∧ s.current = s.defaults)) ∧
    ((load lib nums walks s).1 = none →
      ((load lib nums walks s).2 = s ↔ LeftOver lib nums walks s)) ∧
    ∀ id overrideJson, (upsertOverride lib nums walks disk id overrideJson s).1 = false →
      ((upsertOverride lib nums walks disk id overrideJson s).2 = s ↔
        s.overrides.get? id = some (clean id overrideJson)) := by
  refine ⟨fun h => ?_, fun _ => load_unchanged_iff lib nums walks s, fun id overrideJson h => ?_⟩
  · rw [load_unchanged_iff, leftOver_of_cannotRead lib nums walks h]
  · unfold upsertOverride at h ⊢
    split at h
    · cases h
    · rename_i hid
      rw [if_neg hid]
      dsimp only at h ⊢
      split at h
      · rename_i hmerge
        rw [← OrderedMap.insert_eq_self_iff]
        constructor
        · exact fun hsame => congrArg AgentConfigStore.overrides hsame
        · intro hsame
          rw [hsame]
      · cases h

/-- Nothing is lost of a store that has nothing. -/
theorem failed_unchanged_iff_unreadable :
    (load readerLib sampleNumbers .sorted { file := .unreadable }).2 = { file := .unreadable } :=
  ((failed_unchanged_iff readerLib sampleNumbers .sorted .works
    { file := .unreadable }).1 trivial).mpr ⟨rfl, rfl⟩

/-- A store with an override, and a file that is no JSON any more. -/
def brokenFile : AgentConfigStore where
  overrides := OrderedMap.empty.insert (lit "demo") (.obj [(lit "id", .str (lit "demo"))])
  file := .text (lit "agents")

/-- After the failed load, the next save writes a file without agents; and an override that
throws stays. -/
theorem failures_not_atomic :
    (CannotRead readerLib brokenFile.file ∧
      (load readerLib sampleNumbers .sorted brokenFile).2 ≠ brokenFile ∧
      (saveLocked readerLib .sorted .works
        (load readerLib sampleNumbers .sorted brokenFile).2).file =
          .text (lit "\x7b\n  \"agents\": [],\n  \"version\": 1\n\x7d")) ∧
    (upsertOverride readerLib sampleNumbers .sorted .works (lit "demo")
      (.obj [(lit "maxIterations", .str (lit "many"))]) {}).1 = false ∧
    (upsertOverride readerLib sampleNumbers .sorted .works (lit "demo")
      (.obj [(lit "maxIterations", .str (lit "many"))]) {}).2 ≠ {} := by
  refine ⟨⟨rfl, fun h => ?_, by decide⟩, rfl, fun h => ?_⟩
  · have hsome := congrArg (fun s => (s.overrides.get? (lit "demo")).isSome) h
    revert hsome
    decide
  · have hsome := congrArg (fun s => (s.overrides.get? (lit "demo")).isSome) h
    revert hsome
    decide

end AgentConfigStore

end JiuwenCore.Config
