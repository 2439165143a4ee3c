import JiuwenCore.Config.ConfigJson

/-!
# The setting that has moved

`idleConsolidationSeconds` was part of the context once and is part of the memory now. A
JSON from before the move is still read, but only by the merge of a memory: where a JSON
has none, the setting of its context is lost, and what is written keeps that.
-/

namespace JiuwenCore.Config

variable {lib : JsonLib} {nums : Numbers}

/-! ## What a merge reads -/

theorem extraParams_keeps {σ ρ : Type} {π : σ → ρ} {get : σ → ConfigNode}
    {set : ConfigNode → σ → σ} (h : ∀ x a, π (set x a) = π a) :
    (extraParams lib nums get set).Keeps π where
  merge j a b hmerge := by
    unfold extraParams at hmerge
    dsimp only at hmerge
    split at hmerge
    · rw [Option.map_eq_some_iff] at hmerge
      rcases hmerge with ⟨node, _, rfl⟩
      exact h node a
    · rw [Option.some.inj hmerge]
  absent a b habsent := by rw [Option.some.inj habsent]

theorem promptTemplates_keeps : promptTemplates.Keeps (·.memoryConfig) where
  merge j a b hmerge := by rw [← Option.some.inj hmerge]
  absent a b habsent := by rw [Option.some.inj habsent]

theorem idleConsolidationSeconds_sole (contextConfigJson : Json) :
    (idleConsolidationSeconds lib contextConfigJson).SoleIn (·.idleConsolidationSeconds)
      (memoryConfigRecord lib nums contextConfigJson).fields := by
  unfold memoryConfigRecord
  repeat' first
    | refine .there (Field.value_keeps fun _ _ => rfl) ?_
    | refine .there (extraParams_keeps fun _ _ => rfl) ?_
    | refine .here ?_
    | refine List.forall_mem_cons.mpr ⟨Field.value_keeps fun _ _ => rfl, ?_⟩
    | exact fun _ h => absurd h List.not_mem_nil

theorem memoryConfig_sole (contextConfigJson : Json) :
    (Field.record (memoryConfigRecord lib nums contextConfigJson) (lit "memoryConfig")
        (·.memoryConfig) fun x (out : AgentConfig) => { out with memoryConfig := x }).SoleIn
      (·.memoryConfig) (agentConfigRecord lib nums contextConfigJson).fields := by
  unfold agentConfigRecord
  repeat' first
    | refine .there (Field.value_keeps fun _ _ => rfl) ?_
    | refine .there (Field.record_keeps fun _ _ => rfl) ?_
    | refine .here ?_
    | refine List.forall_mem_cons.mpr ⟨Field.value_keeps fun _ _ => rfl, ?_⟩
    | refine List.forall_mem_cons.mpr ⟨Field.record_keeps fun _ _ => rfl, ?_⟩
    | refine List.forall_mem_cons.mpr ⟨promptTemplates_keeps, ?_⟩
    | exact fun _ h => absurd h List.not_mem_nil

/-- The setting in its old home. -/
def legacyIdle (j : Json) : Option Json :=
  (j.member (lit "contextConfig")).bind (·.member (lit "idleConsolidationSeconds"))

/-- The setting in its new home, without it the one in its old home. -/
def idleJson (j : Json) : Option Json :=
  ((j.member (lit "memoryConfig")).bind (·.member (lit "idleConsolidationSeconds"))).or
    (legacyIdle j)

/-- What a value makes of a setting, `none` where it is no number. -/
def setInt (lib : JsonLib) (v : Option Json) (base : Int32) : Option Int32 :=
  match v with
  | some v => v.getInt lib
  | none => some base

theorem member_of_not_isObject {j : Json} (h : j.isObject = false) (key : Str) :
    j.member key = none := by
  cases j with
  | obj members => cases h
  | null | bool _ | int _ | float _ | str _ | arr _ => rfl

theorem idleConsolidationSeconds_mergeInto (contextConfigJson m : Json) (a : MemoryConfig) :
    (idleConsolidationSeconds lib contextConfigJson).mergeInto m a =
      (setInt lib ((m.member (lit "idleConsolidationSeconds")).or
        (contextConfigJson.member (lit "idleConsolidationSeconds")))
        a.idleConsolidationSeconds).map fun x => { a with idleConsolidationSeconds := x } := by
  have hkey : (idleConsolidationSeconds lib contextConfigJson).key =
      lit "idleConsolidationSeconds" := rfl
  rw [Field.mergeInto, hkey]
  cases m.member (lit "idleConsolidationSeconds") with
  | some v =>
      change (((v.getInt lib).map some).map _) = (v.getInt lib).map _
      rw [Option.map_map]
      rfl
  | none =>
      rw [Option.none_or]
      change (match contextConfigJson.member (lit "idleConsolidationSeconds") with
        | some v => (v.getInt lib).map _
        | none => some a) = _
      cases contextConfigJson.member (lit "idleConsolidationSeconds") with
      | some v => rfl
      | none => rfl

/-- The merge of a memory reads the setting there or in the JSON of the context. -/
theorem memoryConfig_idle {contextConfigJson m : Json} {base merged : MemoryConfig}
    (h : (memoryConfigRecord lib nums contextConfigJson).merge m base = some merged)
    (hobject : m.isObject = true) :
    setInt lib ((m.member (lit "idleConsolidationSeconds")).or
      (contextConfigJson.member (lit "idleConsolidationSeconds")))
      base.idleConsolidationSeconds = some merged.idleConsolidationSeconds := by
  rw [Record.merge, if_pos hobject] at h
  rcases (idleConsolidationSeconds_sole contextConfigJson).merge h with ⟨a', b', ha, hmerge, hb⟩
  rw [idleConsolidationSeconds_mergeInto, Option.map_eq_some_iff] at hmerge
  rcases hmerge with ⟨x, hread, rfl⟩
  rw [← ha, hread, hb]

theorem contextConfigJson_member (j : Json) :
    ((j.member (lit "contextConfig")).getD (.obj [])).member (lit "idleConsolidationSeconds") =
      legacyIdle j := by
  rw [legacyIdle]
  cases j.member (lit "contextConfig") with
  | some context => rfl
  | none => rfl

/-- The JSON has a memory to merge. -/
def hasMemory (j : Json) : Bool := ((j.member (lit "memoryConfig")).map (·.isObject)).getD false

theorem idleJson_of_not_hasMemory {j : Json} (h : hasMemory j = false) :
    idleJson j = legacyIdle j := by
  rw [idleJson]
  unfold hasMemory at h
  cases hm : j.member (lit "memoryConfig") with
  | some m =>
      rw [hm] at h
      rw [Option.bind_some, member_of_not_isObject h, Option.none_or]
  | none => rw [Option.bind_none, Option.none_or]

/-- A merge sets the setting when the JSON has a memory, and leaves it otherwise. -/
theorem mergeAgentConfigFromJson_idle {j : Json} {base merged : AgentConfig}
    (h : mergeAgentConfigFromJson lib nums j base = some merged) :
    setInt lib (if hasMemory j then idleJson j else none)
      base.memoryConfig.idleConsolidationSeconds =
        some merged.memoryConfig.idleConsolidationSeconds := by
  rw [mergeAgentConfigFromJson, Record.merge] at h
  split at h
  · rcases (memoryConfig_sole _).merge h with ⟨a', b', ha, hmerge, hb⟩
    rw [← ha, hb]
    unfold Field.mergeInto at hmerge
    split at hmerge
    · rename_i m hm
      replace hm : j.member (lit "memoryConfig") = some m := hm
      rw [Field.record, Option.map_eq_some_iff] at hmerge
      rcases hmerge with ⟨memory, hmemory, rfl⟩
      rw [hasMemory, hm, Option.map_some, Option.getD_some]
      cases hobject : m.isObject with
      | true =>
          have hidle := memoryConfig_idle hmemory hobject
          rw [contextConfigJson_member] at hidle
          rw [idleJson, hm]
          exact hidle
      | false =>
          rw [Record.merge, hobject] at hmemory
          cases hmemory
          rfl
    · rename_i hm
      replace hm : j.member (lit "memoryConfig") = none := hm
      rw [hasMemory, hm]
      cases hmerge
      rfl
  · rename_i hobject
    rw [Bool.not_eq_true] at hobject
    rw [hasMemory, member_of_not_isObject hobject]
    cases h
    rfl

/-! ## Loading, saving, loading -/

/-- The setting a merge leaves is the one the JSON asks for, and it survives being written
and merged into any base. -/
def Migrates (lib : JsonLib) (nums : Numbers) (j : Json) (base merged : AgentConfig) : Prop :=
  setInt lib (idleJson j) base.memoryConfig.idleConsolidationSeconds =
      some merged.memoryConfig.idleConsolidationSeconds ∧
    ∀ other, ∃ again,
      mergeAgentConfigFromJson lib nums (agentConfigToJson lib nums merged) other = some again ∧
        again.memoryConfig.idleConsolidationSeconds = merged.memoryConfig.idleConsolidationSeconds

/-- A file from before the move keeps its setting exactly if it has a memory as well, or its
context says nothing else than the base. -/
theorem migrates_iff {j : Json} {base merged : AgentConfig}
    (h : mergeAgentConfigFromJson lib nums j base = some merged) :
    Migrates lib nums j base merged ↔ hasMemory j = true ∨
      setInt lib (legacyIdle j) base.memoryConfig.idleConsolidationSeconds =
        some base.memoryConfig.idleConsolidationSeconds := by
  have hagain : ∀ other, ∃ again,
      mergeAgentConfigFromJson lib nums (agentConfigToJson lib nums merged) other = some again ∧
        again.memoryConfig.idleConsolidationSeconds =
          merged.memoryConfig.idleConsolidationSeconds :=
    fun other => ⟨_, mergeAgentConfigFromJson_toJson lib nums merged other, rfl⟩
  have hidle := mergeAgentConfigFromJson_idle h
  rw [Migrates, and_iff_left hagain]
  cases hmemory : hasMemory j with
  | true =>
      rw [hmemory, if_pos rfl] at hidle
      exact iff_of_true hidle (Or.inl rfl)
  | false =>
      rw [hmemory, if_neg Bool.false_ne_true] at hidle
      rw [idleJson_of_not_hasMemory hmemory, ← Option.some.inj hidle]
      simp

/-- A file with the memory it needs: the old setting is taken over. -/
theorem migrates_iff_legacy : ∃ merged,
    mergeAgentConfigFromJson readerLib sampleNumbers
      (.obj [(lit "contextConfig", .obj [(lit "idleConsolidationSeconds", .int 77)]),
        (lit "id", .str (lit "demo")),
        (lit "memoryConfig", .obj [(lit "enabled", .bool true)])]) {} = some merged ∧
    Migrates readerLib sampleNumbers
      (.obj [(lit "contextConfig", .obj [(lit "idleConsolidationSeconds", .int 77)]),
        (lit "id", .str (lit "demo")),
        (lit "memoryConfig", .obj [(lit "enabled", .bool true)])]) {} merged :=
  ⟨_, rfl, (migrates_iff rfl).mpr (Or.inl rfl)⟩

/-- Without a memory in the file, the old setting is lost. -/
theorem legacy_setting_lost : ∃ merged,
    mergeAgentConfigFromJson readerLib sampleNumbers
      (.obj [(lit "contextConfig", .obj [(lit "idleConsolidationSeconds", .int 77)])]) {} =
        some merged ∧
    merged.memoryConfig.idleConsolidationSeconds = 60 ∧
    ¬ Migrates readerLib sampleNumbers
      (.obj [(lit "contextConfig", .obj [(lit "idleConsolidationSeconds", .int 77)])]) {} merged :=
  ⟨_, rfl, rfl, fun h => absurd (Option.some.inj h.1) (by decide)⟩

end JiuwenCore.Config
