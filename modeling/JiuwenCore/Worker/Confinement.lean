import JiuwenCore.Worker.Disclosure

/-!
# What disclosure discloses

`tool_search` loads any tool that is registered in the process, and the model recalls from
a catalog of all of them, whereas the pool of a turn is the tools of the agent. So the
active tools stay within the pool exactly as long as the names that are loaded and
recalled are in it.
-/

namespace JiuwenCore.Disclosure

open Reload (ResourceManager ToolDisclosureMode computeAlwaysOnFor)

/-! ## The offered tools -/

/-- What `ResourceManager::BuildToolSchemas` makes of a name; `probe` is the schema of the
tool that its factory makes, if it makes one. -/
def schemaOf (rm : ResourceManager) (probe : Str → Option Models.ToolSchema) (name : Str) :
    Option Models.ToolSchema :=
  match rm.functionCallSchemas name with
  | some cachedSchema => some cachedSchema
  | none => if isRegistered rm name then probe name else none

/-- The names that `AgentWorker::BuildToolSchemas` asks for. -/
def fcNames (mode : ToolDisclosureMode) (config : Reload.AgentConfig) (toolNames : List Str)
    (ts : TurnState) : Finset Str :=
  if Discloses mode then computeAlwaysOnFor config ∪ ts.loadedTools else toolNames.toFinset

/-- The names of the tools that `AgentWorker::BuildToolSchemas` returns. -/
def offeredNames (rm : ResourceManager) (probe : Str → Option Models.ToolSchema)
    (mode : ToolDisclosureMode) (config : Reload.AgentConfig) (toolNames : List Str)
    (ts : TurnState) : Finset Str :=
  (fcNames mode config toolNames ts).filter fun name => (schemaOf rm probe name).isSome

/-- The active tools are tools of the agent, and what it offers while it discloses is those
and the tools that are always on. -/
structure Session.Confined (s : Session) : Prop where
  active : s.turn.activeSet ⊆ s.pool.toFinset
  offered : ∀ rm probe mode config toolNames, Discloses mode →
    offeredNames rm probe mode config toolNames s.turn ⊆
      computeAlwaysOnFor config ∪ s.pool.toFinset

/-! ## The condition -/

section

variable (lib : JsonLib)

/-- What is recalled is in the pool. -/
def RecallWithin (pool : List Str) (recalled : Recall) : Prop :=
  ∀ selection ∈ findRelevant lib recalled, ∀ name ∈ selection.tools, name ∈ pool

/-- A call loads a tool of the pool, and searches where everything is visible or what is
recalled is in the pool. A load does nothing for a tool that is not registered or always on. -/
def CallWithin (s : Session) (rm : ResourceManager) (alwaysOnNames : Finset Str)
    (selector : Option Recall) (input : Str) : Prop :=
  ∀ action query, parseInput lib input = some (action, query) → query ≠ [] →
    (action = lit "load" → isRegistered rm query = true → query ∉ alwaysOnNames →
      query ∈ s.pool) ∧
    (action = lit "search" → s.turn.activeIsFullPool = false →
      ∀ recalled ∈ selector, RecallWithin lib s.pool recalled)

def Within (s : Session) : Event → Prop
  | .invoke mode selector pool _ =>
      mode = .selective → ∀ recalled ∈ selector, RecallWithin lib pool recalled
  | .toolSearch rm alwaysOnNames selector input => CallWithin lib s rm alwaysOnNames selector input
  | .skillSearch _ _ _ => True

end

/-! ## What a call adds -/

variable {lib : JsonLib} {ts : TurnState} {pool : List Str}

theorem Session.confined_iff {s : Session} (hs : s.Sound) :
    s.Confined ↔ s.turn.activeSet ⊆ s.pool.toFinset := by
  refine ⟨Confined.active, fun hactive => ⟨hactive, ?_⟩⟩
  intro rm probe mode config toolNames hmode name hname
  have hasked : name ∈ fcNames mode config toolNames s.turn := (Finset.mem_filter.mp hname).1
  rw [fcNames, if_pos hmode, Finset.mem_union] at hasked
  rw [Finset.mem_union]
  exact hasked.imp_right fun hloaded => hactive (hs.loaded hloaded)

theorem union_subset_pool_iff (h : ts.activeSet ⊆ pool.toFinset) (names : List Str) :
    ts.activeSet ∪ names.toFinset ⊆ pool.toFinset ↔ ∀ name ∈ names, name ∈ pool := by
  rw [Finset.union_subset_iff]
  constructor
  · intro hboth name hname
    exact List.mem_toFinset.mp (hboth.2 (List.mem_toFinset.mpr hname))
  · intro hnames
    refine ⟨h, fun name hname => ?_⟩
    exact List.mem_toFinset.mpr (hnames name (List.mem_toFinset.mp hname))

theorem ToolSearchTool.load_subset_iff (h : ts.activeSet ⊆ pool.toFinset) (rm : ResourceManager)
    (alwaysOnNames : Finset Str) (query : Str) :
    (load rm alwaysOnNames query ts).1.activeSet ⊆ pool.toFinset ↔
      (isRegistered rm query = true → query ∉ alwaysOnNames → query ∈ pool) := by
  unfold load
  by_cases hregistered : isRegistered rm query = true
  · rw [if_neg (not_not_intro hregistered)]
    by_cases halways : query ∈ alwaysOnNames
    · rw [if_pos halways]
      exact iff_of_true h fun _ hnot => absurd halways hnot
    · rw [if_neg halways]
      simp only [TurnState.load, Finset.insert_subset_iff, List.mem_toFinset]
      constructor
      · intro hboth _ _
        exact hboth.1
      · intro hmem
        exact ⟨hmem hregistered halways, h⟩
  · rw [if_pos hregistered]
    exact iff_of_true h fun hyes => absurd hyes hregistered

/-- Of what is recalled, only what is not active yet is added. -/
theorem new_mem_iff (h : ts.activeSet ⊆ pool.toFinset) (names : List Str) :
    (∀ name ∈ names.filter (· ∉ ts.activeSet), name ∈ pool) ↔ ∀ name ∈ names, name ∈ pool := by
  constructor
  · intro hnew name hname
    by_cases hactive : name ∈ ts.activeSet
    · exact List.mem_toFinset.mp (h hactive)
    · exact hnew name (List.mem_filter.mpr ⟨hname, decide_eq_true hactive⟩)
  · intro hall name hname
    exact hall name (List.mem_of_mem_filter hname)

theorem ToolSearchTool.search_subset_iff (h : ts.activeSet ⊆ pool.toFinset)
    (selector : Option Recall) (query : Str) :
    (search lib selector query ts).1.activeSet ⊆ pool.toFinset ↔
      (ts.activeIsFullPool = false → ∀ recalled ∈ selector, RecallWithin lib pool recalled) := by
  unfold search
  cases hfull : ts.activeIsFullPool with
  | true => exact iff_of_true h fun hno => Bool.noConfusion hno
  | false =>
      cases selector with
      | none => exact iff_of_true h fun _ recalled hrecall => absurd hrecall (Option.not_mem_none _)
      | some recalled =>
          simp only [Option.mem_some_iff, forall_eq', forall_const, RecallWithin]
          cases findRelevant lib recalled with
          | none => simpa using h
          | some selection =>
              simp only [Option.mem_some_iff, forall_eq']
              rw [← new_mem_iff h]
              split
              · exact absurd ‹_› Bool.false_ne_true
              split
              · rename_i hnone
                rw [hnone]
                exact iff_of_true h (List.forall_mem_nil _)
              · exact union_subset_pool_iff h _

theorem ToolSearchTool.invoke_subset_iff {s : Session} (h : s.turn.activeSet ⊆ s.pool.toFinset)
    (rm : ResourceManager) (alwaysOnNames : Finset Str) (selector : Option Recall) (input : Str) :
    (invoke lib rm alwaysOnNames selector input s.turn).1.activeSet ⊆ s.pool.toFinset ↔
      CallWithin lib s rm alwaysOnNames selector input := by
  unfold invoke CallWithin
  cases hparse : parseInput lib input with
  | none =>
      refine iff_of_true h ?_
      intro action query hcall
      cases hcall
  | some call =>
      obtain ⟨action, query⟩ := call
      have hsplit : (∀ a q, some (action, query) = some (a, q) → q ≠ [] →
          (a = lit "load" → isRegistered rm q = true → q ∉ alwaysOnNames → q ∈ s.pool) ∧
          (a = lit "search" → s.turn.activeIsFullPool = false →
            ∀ recalled ∈ selector, RecallWithin lib s.pool recalled)) ↔ (query ≠ [] →
          (action = lit "load" → isRegistered rm query = true → query ∉ alwaysOnNames →
            query ∈ s.pool) ∧
          (action = lit "search" → s.turn.activeIsFullPool = false →
            ∀ recalled ∈ selector, RecallWithin lib s.pool recalled)) := by
        constructor
        · exact fun hall => hall action query rfl
        · intro hone a q hcall
          cases hcall
          exact hone
      rw [hsplit]
      simp only
      have hdiffer : lit "search" ≠ lit "load" := by decide
      split
      · rename_i hempty
        exact iff_of_true h fun hne => absurd hempty hne
      · rename_i hquery
        split
        · rename_i hload
          simp only [hload, hquery, hdiffer.symm, ne_eq, not_false_eq_true, forall_const,
            IsEmpty.forall_iff, and_true]
          exact load_subset_iff h rm alwaysOnNames query
        · rename_i hload
          split
          · rename_i hsearch
            simp only [hsearch, hquery, hdiffer, ne_eq, not_false_eq_true, forall_const,
              IsEmpty.forall_iff, true_and]
            exact search_subset_iff h selector query
          · rename_i hsearch
            exact iff_of_true h fun _ => ⟨fun hyes => absurd hyes hload,
              fun hyes => absurd hyes hsearch⟩

theorem TurnState.seedTools_subset_iff (pool selected : List Str) (ts : TurnState) :
    (ts.reset.seedTools pool selected).activeSet ⊆ pool.toFinset ↔
      ∀ name ∈ selected, name ∈ pool := by
  have hreset : ts.reset.activeSet ⊆ pool.toFinset := Finset.empty_subset _
  unfold seedTools
  split
  · rename_i hnone
    rw [hnone]
    exact iff_of_true ((union_subset_pool_iff hreset pool).mpr fun _ => id)
      (List.forall_mem_nil _)
  split
  · rename_i hsame
    refine iff_of_true ((union_subset_pool_iff hreset pool).mpr fun _ => id) ?_
    intro name hname
    rw [← List.mem_toFinset, ← hsame]
    exact List.mem_toFinset.mpr hname
  · exact union_subset_pool_iff hreset selected

theorem invoke_subset_iff {mode : ToolDisclosureMode} (hmode : Discloses mode)
    (selector : Option Recall) (pool skillPool : List Str) (ts : TurnState) :
    (invoke lib mode selector pool skillPool ts).activeSet ⊆ pool.toFinset ↔
      (mode = .selective → ∀ recalled ∈ selector, RecallWithin lib pool recalled) := by
  have hfull : ((ts.reset.seedActive pool).seedSkillActive skillPool).activeSet ⊆
      pool.toFinset :=
    (union_subset_pool_iff (Finset.empty_subset _) pool).mpr fun _ => id
  unfold invoke
  rw [if_pos hmode]
  split
  · rename_i recalled
    rw [((ts.reset.seedTools pool _).seedSkills_rest skillPool _).2.1,
      TurnState.seedTools_subset_iff]
    simp only [forall_const, Option.mem_some_iff, forall_eq', RecallWithin]
    cases findRelevant lib recalled with
    | none => simp
    | some selection => simp
  · rename_i hother
    refine iff_of_true hfull fun hselective recalled hrecall => ?_
    exact absurd hrecall (hother recalled hselective)

/-! ## Runs -/

theorem step_confined_iff {s s' : Session} {e : Event} (hsound : s.Sound) (hs : s.Confined)
    (h : step lib s e = some s') : s'.Confined ↔ Within lib s e := by
  rw [Session.confined_iff (hsound.step h)]
  cases e with
  | invoke mode selector pool skillPool =>
      simp only [step] at h
      split at h
      · rename_i hmode
        cases h
        exact invoke_subset_iff hmode selector pool skillPool s.turn
      · rename_i hmode
        cases h
        rw [invoke, if_neg hmode]
        exact iff_of_true hs.active fun hselective => absurd (Or.inr hselective) hmode
  | toolSearch rm alwaysOnNames selector input =>
      cases h
      exact ToolSearchTool.invoke_subset_iff hs.active rm alwaysOnNames selector input
  | skillSearch engine selector input =>
      cases h
      have hchange : (SkillSearchTool.invoke lib engine selector input s.turn).1.activeSet =
          s.turn.activeSet := SkillSearchTool.invoke_active engine selector input s.turn
      rw [hchange]
      exact iff_of_true hs.active trivial

/-- As long as the agent is given what is loaded and recalled, its turns stay within its
tools; and one further step stays within them exactly if it keeps to that. -/
theorem confined_iff_within (lib : JsonLib) {s s' : Session} {e : Event}
    (hs : Run (step lib) (Within lib) {} s) (h : step lib s e = some s') :
    s.Confined ∧ (s'.Confined ↔ Within lib s e) := by
  have hstart : Session.Confined {} :=
    (Session.confined_iff Session.sound_start).mpr (Finset.empty_subset _)
  have hsound : ∀ t, Run (step lib) (Within lib) {} t → t.Sound := fun t ht =>
    sound_of_run (ht.mono fun _ _ _ => trivial)
  have hconfined : s.Confined := by
    refine (hs.invariant (motive := fun t => t.Sound ∧ t.Confined)
      ⟨Session.sound_start, hstart⟩ ?_).2
    intro t e t' ht hwithin hstep
    exact ⟨ht.1.step hstep, (step_confined_iff ht.1 ht.2 hstep).mpr hwithin⟩
  exact ⟨hconfined, step_confined_iff (hsound s hs) hconfined h⟩

/-- The agent has one tool, and the model loads another one that is registered. -/
theorem other_tool_disclosed : ¬ ∀ (lib : JsonLib) (s : Session),
    Run (step lib) AnyStep {} s → s.Confined := by
  intro hall
  let call := Json.obj [(lit "action", .str (lit "load")), (lit "query", .str (lit "bash"))]
  let lib := oneTextLib (lit "load bash") call
  let rm : ResourceManager := { toolFactories := [lit "bash", lit "grep"] }
  let s : Session :=
    ⟨⟨{lit "bash", lit "grep"}, {lit "bash"}, ∅, true, true⟩, [lit "grep"], []⟩
  have hstart : step lib {} (.invoke .progressive none [lit "grep"] []) =
      some ⟨⟨{lit "grep"}, ∅, ∅, true, true⟩, [lit "grep"], []⟩ := by decide
  have hload : step lib ⟨⟨{lit "grep"}, ∅, ∅, true, true⟩, [lit "grep"], []⟩
      (.toolSearch rm ∅ none (lit "load bash")) = some s := by decide
  have hrun : Run (step lib) AnyStep {} s :=
    .next (.next .start trivial hstart) trivial hload
  have hactive := (hall lib s hrun).active
  revert hactive
  decide

/-- The same agent loads its own tool. -/
theorem own_tool_confined :
    let call := Json.obj [(lit "action", .str (lit "load")), (lit "query", .str (lit "grep"))]
    let lib := oneTextLib (lit "load grep") call
    let e : Event := .toolSearch { toolFactories := [lit "bash", lit "grep"] } ∅ none
      (lit "load grep")
    let s : Session := ⟨⟨{lit "grep"}, ∅, ∅, true, true⟩, [lit "grep"], []⟩
    let s' : Session := ⟨⟨{lit "grep"}, {lit "grep"}, ∅, true, true⟩, [lit "grep"], []⟩
    Run (step lib) (Within lib) {} s ∧ step lib s e = some s' ∧
      s.Confined ∧ (s'.Confined ↔ Within lib s e) := by
  intro call lib e s s'
  have hs : Run (step lib) (Within lib) {} s := by
    refine .next (e := .invoke .progressive none [lit "grep"] []) .start ?_ ?_
    · intro hmode
      cases hmode
    · decide
  have hstep : step lib s e = some s' := by decide
  exact ⟨hs, hstep, confined_iff_within lib hs hstep⟩

end JiuwenCore.Disclosure
