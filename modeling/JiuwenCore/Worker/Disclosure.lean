import JiuwenCore.JsonText
import JiuwenCore.Lib.Runs
import JiuwenCore.Session.ReloadFailure
import JiuwenCore.Utils.ParseAction

/-!
# Progressive disclosure

At the start of a turn the agent seeds the tools and skills that are visible in it, from
its own tools or from what the model recalls. During the turn `tool_search` and
`skill_search` add to them. The sets and two flags belong to the session; a flag says that
a side was seeded with everything there is.
-/

namespace JiuwenCore.Disclosure

open Json (getString)
open Reload (ResourceManager ToolDisclosureMode computeAlwaysOnFor)

/-! ## The state of a turn -/

/-- The sets of a `SessionEntry` and the flags of its `TurnStateProxy`. -/
structure TurnState where
  activeSet : Finset Str := ∅
  loadedTools : Finset Str := ∅
  skillActiveSet : Finset Str := ∅
  activeIsFullPool : Bool := false
  skillActiveIsFullPool : Bool := false
  deriving DecidableEq

namespace TurnState

def load (name : Str) (ts : TurnState) : TurnState :=
  { ts with
    activeSet := insert name ts.activeSet
    loadedTools := insert name ts.loadedTools }

def reset (ts : TurnState) : TurnState :=
  { ts with
    activeSet := ∅
    loadedTools := ∅
    skillActiveSet := ∅
    activeIsFullPool := false
    skillActiveIsFullPool := false }

def seedActive (names : List Str) (ts : TurnState) : TurnState :=
  { ts with activeSet := ts.activeSet ∪ names.toFinset, activeIsFullPool := true }

def seedActiveSubset (names : List Str) (ts : TurnState) : TurnState :=
  { ts with activeSet := ts.activeSet ∪ names.toFinset, activeIsFullPool := false }

def seedSkillActive (names : List Str) (ts : TurnState) : TurnState :=
  { ts with skillActiveSet := ts.skillActiveSet ∪ names.toFinset, skillActiveIsFullPool := true }

def seedSkillActiveSubset (names : List Str) (ts : TurnState) : TurnState :=
  { ts with skillActiveSet := ts.skillActiveSet ∪ names.toFinset, skillActiveIsFullPool := false }

end TurnState

/-! ## Recall -/

structure CapabilitySelection where
  tools : List Str := []
  skills : List Str := []
  deriving DecidableEq, Repr

/-- The strings of the array under a key. -/
def stringItems (key : Str) (j : Json) : List Str :=
  match j.member key with
  | some (.arr items) => items.filterMap getString
  | _ => []

/-- How asking the model for a selection goes. -/
inductive Recall where
  /-- The catalog for the prompt cannot be made. -/
  | throws
  /-- There is no model, or it throws. -/
  | unavailable
  | answers (finishReason content : Str)
  deriving DecidableEq, Repr

section

variable (lib : JsonLib)

def parseRecallResponse (response : Str) : CapabilitySelection :=
  match indexOf [123] response, lastIndexOf 125 response with
  | some braceStart, some braceEnd =>
      if braceEnd ≤ braceStart then {}
      else
        match lib.parse (substr response braceStart (braceEnd - braceStart + 1)) with
        | some j => { tools := stringItems (lit "tools") j, skills := stringItems (lit "skills") j }
        | none => {}
  | _, _ => {}

/-- `findRelevant`, `none` where it throws. -/
def findRelevant : Recall → Option CapabilitySelection
  | .throws => none
  | .unavailable => some {}
  | .answers finishReason content =>
      if finishReason = lit "error" ∨ content = [] then some {}
      else some (parseRecallResponse lib content)

/-! ## The start of a turn -/

namespace TurnState

/-- The seeding of the tools from a selection. -/
def seedTools (pool selected : List Str) (ts : TurnState) : TurnState :=
  if selected = [] then ts.seedActive pool
  else if selected.toFinset = pool.toFinset then ts.seedActive pool
  else ts.seedActiveSubset selected

def seedSkills (skillPool selected : List Str) (ts : TurnState) : TurnState :=
  if selected = [] then ts.seedSkillActive skillPool
  else if selected.toFinset = skillPool.toFinset then ts.seedSkillActive skillPool
  else ts.seedSkillActiveSubset selected

end TurnState

/-- `IsProgressiveDisclosureActive`, for the effective mode. -/
def Discloses (mode : ToolDisclosureMode) : Prop := mode = .progressive ∨ mode = .selective

instance (mode : ToolDisclosureMode) : Decidable (Discloses mode) :=
  inferInstanceAs (Decidable (_ ∨ _))

/-- `ReactAgentWorker::Invoke` up to the loop; there may be no selector. -/
def invoke (mode : ToolDisclosureMode) (selector : Option Recall) (pool skillPool : List Str)
    (ts : TurnState) : TurnState :=
  if Discloses mode then
    let ts := ts.reset
    match mode, selector with
    | .selective, some recalled =>
        let rr := (findRelevant lib recalled).getD {}
        (ts.seedTools pool rr.tools).seedSkills skillPool rr.skills
    | _, _ => (ts.seedActive pool).seedSkillActive skillPool
  else ts

/-! ## The two tools -/

/-- The action and the query of a call, `none` where the input is not accepted. -/
def parseInput (input : Str) : Option (Str × Str) :=
  (lib.parse input).bind fun j =>
    (j.value getString (lit "action") []).bind fun action =>
      (j.value getString (lit "query") []).map fun query => (action, query)

def invalidInput (actions : Str) : Str :=
  lit "Error: Invalid JSON input. Expected: \x7b\"action\": \"" ++ actions ++
    lit "\", \"query\": \"...\"\x7d"

def noQuery : Str := lit "Error: 'query' parameter is required."

def noRecallNeeded (kind : Str) : Str :=
  lit "No recall needed (all " ++ kind ++
    lit " are already visible in the catalog). Use action='load' directly."

def noneFound (kind query : Str) : Str := lit "No " ++ kind ++ lit " found for query: " ++ query

def listing (names : List Str) : Str := names.flatMap fun name => lit "- " ++ name ++ [10]

def isRegistered (rm : ResourceManager) (name : Str) : Bool :=
  rm.hasTool name || rm.hasSessionTool name

namespace ToolSearchTool

/-- The action `load`. -/
def load (rm : ResourceManager) (alwaysOnNames : Finset Str) (query : Str) (ts : TurnState) :
    TurnState × Str :=
  if ¬ isRegistered rm query then
    (ts, lit "Error: Tool '" ++ query ++ lit "' not found in the tool pool.")
  else if query ∈ alwaysOnNames then
    (ts, lit "Tool '" ++ query ++ lit "' is already in the FC (alwaysOn).")
  else
    (ts.load query,
      lit "Loaded tool '" ++ query ++ lit "'; it will be callable from the next iteration.")

/-- The action `search`; the text is missing where the recall throws. -/
def search (selector : Option Recall) (query : Str) (ts : TurnState) : TurnState × Option Str :=
  if ts.activeIsFullPool then (ts, some (noRecallNeeded (lit "tools")))
  else
    match selector with
    | none => (ts, some (noneFound (lit "tools") query))
    | some recalled =>
        match findRelevant lib recalled with
        | none => (ts, none)
        | some selection =>
            let newTools := selection.tools.filter (· ∉ ts.activeSet)
            if newTools = [] then (ts, some (noneFound (lit "tools") query))
            else
              (ts.seedActiveSubset newTools,
                some (lit "Matching tools:\n" ++ listing newTools ++
                  lit "\nUse action='load' with the tool name to enable it."))

def invoke (rm : ResourceManager) (alwaysOnNames : Finset Str) (selector : Option Recall)
    (input : Str) (ts : TurnState) : TurnState × Option Str :=
  match parseInput lib input with
  | none => (ts, some (invalidInput (lit "load|search")))
  | some (action, query) =>
      if query = [] then (ts, some noQuery)
      else if action = lit "load" then
        let (ts, text) := load rm alwaysOnNames query ts
        (ts, some text)
      else if action = lit "search" then search lib selector query ts
      else
        (ts, some (lit "Error: Invalid action '" ++ action ++ lit "'. Use 'load' or 'search'."))

end ToolSearchTool

/-- What `skill_search` asks of a `SkillEngine`. -/
structure SkillEngine where
  searchSkills : Str → List Str
  getSkillInstructions : Str → Str

namespace SkillSearchTool

/-- The search without a selector, by words. -/
def searchWords (engine : Option SkillEngine) (query : Str) : Str :=
  match engine with
  | none => lit "Error: SkillEngine not initialized."
  | some engine =>
      let found := engine.searchSkills query
      if found = [] then noneFound (lit "skills") query
      else
        lit "Matching skills:\n" ++ listing found ++
          lit "\nUse action='load' with the skill name to get full instructions."

/-- The action `search`; the text is missing where the recall throws. -/
def search (engine : Option SkillEngine) (selector : Option Recall) (query : Str)
    (ts : TurnState) : TurnState × Option Str :=
  if ts.skillActiveIsFullPool then (ts, some (noRecallNeeded (lit "skills")))
  else
    match selector with
    | none => (ts, some (searchWords engine query))
    | some recalled =>
        match findRelevant lib recalled with
        | none => (ts, none)
        | some selection =>
            let newSkills := selection.skills.filter (· ∉ ts.skillActiveSet)
            if newSkills = [] then (ts, some (noneFound (lit "skills") query))
            else
              (ts.seedSkillActiveSubset newSkills,
                some (lit "Matching skills:\n" ++ listing newSkills ++
                  lit "\nUse action='load' with the skill name to get full instructions."))

def invoke (engine : Option SkillEngine) (selector : Option Recall) (input : Str)
    (ts : TurnState) : TurnState × Option Str :=
  match parseInput lib input with
  | none => (ts, some (invalidInput (lit "search|load")))
  | some (action, query) =>
      if query = [] then (ts, some noQuery)
      else if action = lit "search" then search lib engine selector query ts
      else if action = lit "load" then
        match engine with
        | none => (ts, some (lit "Error: SkillEngine not initialized."))
        | some engine => (ts, some (engine.getSkillInstructions query))
      else
        (ts, some (lit "Error: Invalid action '" ++ action ++ lit "'. Use 'search' or 'load'."))

end SkillSearchTool

/-! ## A session -/

/-- The state of the turn, and the tools and skills the agent had when it began. -/
structure Session where
  turn : TurnState := {}
  pool : List Str := []
  skillPool : List Str := []
  deriving DecidableEq

/-- A turn begins, or the model calls one of the tools in it. The registered tools, the
names that are always on and the selector are those at that moment. -/
inductive Event where
  | invoke (mode : ToolDisclosureMode) (selector : Option Recall) (pool skillPool : List Str)
  | toolSearch (rm : ResourceManager) (alwaysOnNames : Finset Str) (selector : Option Recall)
      (input : Str)
  | skillSearch (engine : Option SkillEngine) (selector : Option Recall) (input : Str)

def step (s : Session) : Event → Option Session
  | .invoke mode selector pool skillPool =>
      let turn := invoke lib mode selector pool skillPool s.turn
      if Discloses mode then some ⟨turn, pool, skillPool⟩ else some { s with turn := turn }
  | .toolSearch rm alwaysOnNames selector input =>
      some { s with turn := (ToolSearchTool.invoke lib rm alwaysOnNames selector input s.turn).1 }
  | .skillSearch engine selector input =>
      some { s with turn := (SkillSearchTool.invoke lib engine selector input s.turn).1 }

end

/-- The events within a turn. -/
def WithinTurn (_ : Session) : Event → Prop
  | .invoke _ _ _ _ => False
  | .toolSearch _ _ _ _ | .skillSearch _ _ _ => True

/-! ## What a call can do -/

/-- Every name of the earlier state is in the later one. -/
structure TurnState.Grows (ts ts' : TurnState) : Prop where
  active : ts.activeSet ⊆ ts'.activeSet
  loaded : ts.loadedTools ⊆ ts'.loadedTools
  skills : ts.skillActiveSet ⊆ ts'.skillActiveSet

theorem TurnState.Grows.refl (ts : TurnState) : ts.Grows ts :=
  ⟨Finset.Subset.refl _, Finset.Subset.refl _, Finset.Subset.refl _⟩

theorem TurnState.Grows.trans {a b c : TurnState} (hab : a.Grows b) (hbc : b.Grows c) :
    a.Grows c :=
  ⟨hab.active.trans hbc.active, hab.loaded.trans hbc.loaded, hab.skills.trans hbc.skills⟩

/-- What a call of one of the tools leaves of the state. -/
inductive Change (ts : TurnState) : TurnState → Prop
  | same : Change ts ts
  | loaded (name : Str) : Change ts (ts.load name)
  | recalled (names : List Str) : ts.activeIsFullPool = false →
      Change ts (ts.seedActiveSubset names)
  | recalledSkills (names : List Str) : ts.skillActiveIsFullPool = false →
      Change ts (ts.seedSkillActiveSubset names)

variable {lib : JsonLib} {ts ts' : TurnState}

theorem ToolSearchTool.load_change (rm : ResourceManager) (alwaysOnNames : Finset Str)
    (query : Str) (ts : TurnState) : Change ts (load rm alwaysOnNames query ts).1 := by
  unfold load
  split
  · exact .same
  · split
    · exact .same
    · exact .loaded query

theorem ToolSearchTool.search_change (selector : Option Recall) (query : Str) (ts : TurnState) :
    Change ts (search lib selector query ts).1 := by
  unfold search
  split
  · exact .same
  rename_i hfull
  cases selector with
  | none => exact .same
  | some recalled =>
      simp only
      cases findRelevant lib recalled with
      | none => exact .same
      | some selection =>
          simp only
          split
          · exact .same
          · exact .recalled _ (by simpa using hfull)

theorem ToolSearchTool.invoke_change (rm : ResourceManager) (alwaysOnNames : Finset Str)
    (selector : Option Recall) (input : Str) (ts : TurnState) :
    Change ts (invoke lib rm alwaysOnNames selector input ts).1 := by
  unfold invoke
  split
  · exact .same
  rename_i action query _
  split
  · exact .same
  split
  · exact load_change rm alwaysOnNames query ts
  split
  · exact search_change selector query ts
  · exact .same

/-- The search for skills leaves everything but the active skills as it is. -/
theorem SkillSearchTool.search_spec (engine : Option SkillEngine) (selector : Option Recall)
    (query : Str) (ts : TurnState) :
    (search lib engine selector query ts).1 = ts ∨ ts.skillActiveIsFullPool = false ∧
      ∃ names, (search lib engine selector query ts).1 = ts.seedSkillActiveSubset names := by
  unfold search
  split
  · exact .inl rfl
  rename_i hfull
  cases selector with
  | none => exact .inl rfl
  | some recalled =>
      simp only
      cases findRelevant lib recalled with
      | none => exact .inl rfl
      | some selection =>
          simp only
          split
          · exact .inl rfl
          · exact .inr ⟨by simpa using hfull, _, rfl⟩

theorem SkillSearchTool.invoke_spec (engine : Option SkillEngine) (selector : Option Recall)
    (input : Str) (ts : TurnState) :
    (invoke lib engine selector input ts).1 = ts ∨ ts.skillActiveIsFullPool = false ∧
      ∃ names, (invoke lib engine selector input ts).1 = ts.seedSkillActiveSubset names := by
  unfold invoke
  split
  · exact .inl rfl
  rename_i action query _
  split
  · exact .inl rfl
  split
  · exact search_spec engine selector query ts
  split
  · cases engine with
    | none => exact .inl rfl
    | some engine => exact .inl rfl
  · exact .inl rfl

theorem SkillSearchTool.invoke_change (engine : Option SkillEngine) (selector : Option Recall)
    (input : Str) (ts : TurnState) : Change ts (invoke lib engine selector input ts).1 := by
  rcases invoke_spec engine selector input ts with hsame | ⟨hfull, names, hnames⟩
  · rw [hsame]
    exact .same
  · rw [hnames]
    exact .recalledSkills names hfull

theorem SkillSearchTool.invoke_active (engine : Option SkillEngine) (selector : Option Recall)
    (input : Str) (ts : TurnState) :
    (invoke lib engine selector input ts).1.activeSet = ts.activeSet := by
  rcases invoke_spec engine selector input ts with hsame | ⟨_, names, hnames⟩
  · rw [hsame]
  · rw [hnames]
    rfl

theorem Change.grows (h : Change ts ts') : ts.Grows ts' := by
  cases h with
  | same => exact .refl ts
  | loaded name =>
      exact ⟨Finset.subset_insert _ _, Finset.subset_insert _ _, Finset.Subset.refl _⟩
  | recalled names _ =>
      exact ⟨Finset.subset_union_left, Finset.Subset.refl _, Finset.Subset.refl _⟩
  | recalledSkills names _ =>
      exact ⟨Finset.Subset.refl _, Finset.Subset.refl _, Finset.subset_union_left⟩

/-- A call never says of a side that it is complete. -/
theorem Change.full (h : Change ts ts') :
    (ts'.activeIsFullPool = true → ts.activeIsFullPool = true) ∧
      (ts'.skillActiveIsFullPool = true → ts.skillActiveIsFullPool = true) := by
  cases h with
  | same => exact ⟨id, id⟩
  | loaded name => exact ⟨id, id⟩
  | recalled names _ => exact ⟨fun hfull => Bool.noConfusion hfull, id⟩
  | recalledSkills names _ => exact ⟨id, fun hfull => Bool.noConfusion hfull⟩

theorem Change.loaded_active (h : Change ts ts') (hts : ts.loadedTools ⊆ ts.activeSet) :
    ts'.loadedTools ⊆ ts'.activeSet := by
  cases h with
  | same => exact hts
  | loaded name => exact Finset.insert_subset_insert name hts
  | recalled names _ => exact hts.trans Finset.subset_union_left
  | recalledSkills names _ => exact hts

/-! ## Turns -/

/-- What the flags and the sets promise of the pools of the turn. -/
structure Session.Sound (s : Session) : Prop where
  loaded : s.turn.loadedTools ⊆ s.turn.activeSet
  tools : s.turn.activeIsFullPool = true → s.pool.toFinset ⊆ s.turn.activeSet
  skills : s.turn.skillActiveIsFullPool = true → s.skillPool.toFinset ⊆ s.turn.skillActiveSet

/-- A turn begins with the sides that are marked complete holding their pools, and with no
tool loaded. -/
structure TurnState.Fresh (pool skillPool : List Str) (ts : TurnState) : Prop where
  loaded : ts.loadedTools = ∅
  tools : ts.activeIsFullPool = true → pool.toFinset ⊆ ts.activeSet
  skills : ts.skillActiveIsFullPool = true → skillPool.toFinset ⊆ ts.skillActiveSet

theorem TurnState.seedTools_full (pool selected : List Str) (ts : TurnState)
    (h : (ts.seedTools pool selected).activeIsFullPool = true) :
    pool.toFinset ⊆ (ts.seedTools pool selected).activeSet := by
  unfold seedTools at h ⊢
  split_ifs at h ⊢
  · exact Finset.subset_union_right
  · exact Finset.subset_union_right
  · cases h

theorem TurnState.seedSkills_full (skillPool selected : List Str) (ts : TurnState)
    (h : (ts.seedSkills skillPool selected).skillActiveIsFullPool = true) :
    skillPool.toFinset ⊆ (ts.seedSkills skillPool selected).skillActiveSet := by
  unfold seedSkills at h ⊢
  split_ifs at h ⊢
  · exact Finset.subset_union_right
  · exact Finset.subset_union_right
  · cases h

/-- Seeding one side leaves the other one and the loaded tools alone. -/
theorem TurnState.seedTools_rest (pool selected : List Str) (ts : TurnState) :
    (ts.seedTools pool selected).loadedTools = ts.loadedTools := by
  unfold seedTools
  split_ifs <;> rfl

theorem TurnState.seedSkills_rest (skillPool selected : List Str) (ts : TurnState) :
    (ts.seedSkills skillPool selected).loadedTools = ts.loadedTools ∧
      (ts.seedSkills skillPool selected).activeSet = ts.activeSet ∧
      (ts.seedSkills skillPool selected).activeIsFullPool = ts.activeIsFullPool := by
  unfold seedSkills
  split_ifs <;> exact ⟨rfl, rfl, rfl⟩

theorem TurnState.Fresh.seeded (pool skillPool tools skills : List Str) (ts : TurnState) :
    ((ts.reset.seedTools pool tools).seedSkills skillPool skills).Fresh pool skillPool := by
  have hrest := (ts.reset.seedTools pool tools).seedSkills_rest skillPool skills
  constructor
  · rw [hrest.1, seedTools_rest]
    rfl
  · rw [hrest.2.1, hrest.2.2]
    exact seedTools_full pool tools ts.reset
  · exact seedSkills_full skillPool skills _

theorem TurnState.Fresh.full (pool skillPool : List Str) (ts : TurnState) :
    ((ts.reset.seedActive pool).seedSkillActive skillPool).Fresh pool skillPool :=
  ⟨rfl, fun _ => Finset.subset_union_right, fun _ => Finset.subset_union_right⟩

theorem invoke_fresh {mode : ToolDisclosureMode} (hmode : Discloses mode)
    (selector : Option Recall) (pool skillPool : List Str) (ts : TurnState) :
    (invoke lib mode selector pool skillPool ts).Fresh pool skillPool := by
  unfold invoke
  rw [if_pos hmode]
  split
  · exact .seeded pool skillPool _ _ ts
  · exact .full pool skillPool ts

theorem TurnState.Fresh.sound {pool skillPool : List Str} (h : ts.Fresh pool skillPool) :
    Session.Sound ⟨ts, pool, skillPool⟩ where
  loaded := by
    rw [h.loaded]
    exact Finset.empty_subset _
  tools := h.tools
  skills := h.skills

theorem Session.Sound.change {s : Session} (hs : s.Sound) (h : Change s.turn ts') :
    Session.Sound { s with turn := ts' } where
  loaded := h.loaded_active hs.loaded
  tools := fun hfull => (hs.tools (h.full.1 hfull)).trans h.grows.active
  skills := fun hfull => (hs.skills (h.full.2 hfull)).trans h.grows.skills

theorem Session.Sound.step {s s' : Session} {e : Event} (hs : s.Sound)
    (h : step lib s e = some s') : s'.Sound := by
  cases e with
  | invoke mode selector pool skillPool =>
      simp only [Disclosure.step] at h
      split at h
      · rename_i hmode
        cases h
        exact (invoke_fresh hmode selector pool skillPool s.turn).sound
      · rename_i hmode
        cases h
        rw [invoke, if_neg hmode]
        exact hs
  | toolSearch rm alwaysOnNames selector input =>
      cases h
      exact hs.change (ToolSearchTool.invoke_change rm alwaysOnNames selector input s.turn)
  | skillSearch engine selector input =>
      cases h
      exact hs.change (SkillSearchTool.invoke_change engine selector input s.turn)

theorem step_grows {s s' : Session} {e : Event} (he : WithinTurn s e)
    (h : step lib s e = some s') : s.turn.Grows s'.turn := by
  cases e with
  | invoke mode selector pool skillPool => exact he.elim
  | toolSearch rm alwaysOnNames selector input =>
      cases h
      exact (ToolSearchTool.invoke_change rm alwaysOnNames selector input s.turn).grows
  | skillSearch engine selector input =>
      cases h
      exact (SkillSearchTool.invoke_change engine selector input s.turn).grows

theorem Session.sound_start : Session.Sound {} :=
  ⟨Finset.Subset.refl _, fun h => Bool.noConfusion h, fun h => Bool.noConfusion h⟩

theorem sound_of_run {s : Session} (h : Run (step lib) AnyStep {} s) : s.Sound :=
  h.invariant Session.sound_start fun _ _ _ hs _ hstep => hs.step hstep

theorem grows_of_run {s s' : Session} (h : Run (step lib) WithinTurn s s') :
    s.turn.Grows s'.turn := by
  refine h.invariant (motive := fun t => s.turn.Grows t.turn) (.refl s.turn) ?_
  intro t e t' ht hwithin hstep
  exact ht.trans (step_grows hwithin hstep)

/-- At every moment of every session the loaded tools are active, and a side that is marked
complete has all that the agent had at the start of the turn. Within a turn the sets only
grow. -/
theorem disclosure_sound (lib : JsonLib) {s s' : Session} (hs : Run (step lib) AnyStep {} s)
    (hwithin : Run (step lib) WithinTurn s s') :
    s.Sound ∧ s'.Sound ∧ s.turn.Grows s'.turn := by
  have hrun : Run (step lib) AnyStep {} s' := hs.trans (hwithin.mono fun _ _ _ => trivial)
  exact ⟨sound_of_run hs, sound_of_run hrun, grows_of_run hwithin⟩

/-- An agent with one tool, which is then loaded. -/
theorem disclosure_sound_loaded :
    let call := Json.obj [(lit "action", .str (lit "load")), (lit "query", .str (lit "grep"))]
    let lib := oneTextLib (lit "load grep") call
    let s : Session := ⟨⟨{lit "grep"}, ∅, ∅, true, true⟩, [lit "grep"], []⟩
    let s' : Session := ⟨⟨{lit "grep"}, {lit "grep"}, ∅, true, true⟩, [lit "grep"], []⟩
    Run (step lib) AnyStep {} s ∧ Run (step lib) WithinTurn s s' ∧
      s.Sound ∧ s'.Sound ∧ s.turn.Grows s'.turn := by
  intro call lib s s'
  have hs : Run (step lib) AnyStep {} s := by
    refine .next (e := .invoke .progressive none [lit "grep"] []) .start trivial ?_
    decide
  have hs' : Run (step lib) WithinTurn s s' := by
    refine .next (e := .toolSearch { toolFactories := [lit "grep"] } ∅ none (lit "load grep"))
      .start trivial ?_
    decide
  exact ⟨hs, hs', disclosure_sound lib hs hs'⟩

end JiuwenCore.Disclosure
