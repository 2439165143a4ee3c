import JiuwenCore.Lib.Runs
import JiuwenCore.Session.ReloadFailure

/-!
# The tools of a worker

`AddTools`, `RemoveTools` and `SyncMcpTools` of `AgentWorker`. The last one follows the tools
that the MCP servers offer, and takes for its own every name that a server offers, also one
that was there before. So it drops a tool that was added when a server stops offering it, and
misses one that was removed when a server still offers it.
-/

namespace JiuwenCore.ToolSync

open Reload (ResourceManager Worker)

/-- `RemoveTools`. -/
def removeTools (names : List Str) (worker : Worker) : Worker :=
  { worker with
    toolNames := names.foldl (fun toolNames name => toolNames.filter (· ≠ name)) worker.toolNames }

/-! ## The system -/

inductive Decision where
  | added
  | removed
  deriving DecidableEq, Repr

/-- A worker, with the last decision about each name that `AddTools` or `RemoveTools` has made,
and the names that the servers offered when the tools were last synchronised. -/
structure System where
  worker : Worker := {}
  decision : Str → Option Decision := fun _ => none
  synced : List Str := []

/-- Each call finds the registry as it is then. -/
inductive Event where
  | addTools (rm : ResourceManager) (toolNames : List Str)
  | removeTools (toolNames : List Str)
  | syncMcpTools (rm : ResourceManager)

/-- `AddTools` has decided on the names that are registered; the others it only warns of. -/
def decided (rm : ResourceManager) (names : List Str) : List Str :=
  names.filter fun name => rm.hasTool name || rm.hasSessionTool name

def step (s : System) : Event → Option System
  | .addTools rm toolNames =>
      some
        { s with
          worker := s.worker.addTools rm toolNames
          decision := fun name =>
            if name ∈ decided rm toolNames then some .added else s.decision name }
  | .removeTools toolNames =>
      some
        { s with
          worker := removeTools toolNames s.worker
          decision := fun name => if name ∈ toolNames then some .removed else s.decision name }
  | .syncMcpTools rm =>
      some { s with worker := s.worker.syncMcpTools rm, synced := rm.mcpToolNames }

/-- A call keeps what is promised of the tools: no name is there twice, a synchronisation leaves
every name that a server offers, and drops none that was added. -/
structure Kept (s : System) (e : Event) (s' : System) : Prop where
  nodup : s'.worker.toolNames.Nodup
  offered : ∀ rm, e = .syncMcpTools rm → ∀ name ∈ rm.mcpToolNames, name ∈ s'.worker.toolNames
  added : ∀ rm, e = .syncMcpTools rm → ∀ name ∈ s.worker.toolNames,
    s.decision name = some .added → name ∈ s'.worker.toolNames

/-- A synchronisation finds every tool that is offered as before still there, and no tool that
was added is not offered any more. -/
def Undisputed (s : System) : Event → Prop
  | .syncMcpTools rm =>
      (∀ name ∈ s.synced, name ∈ rm.mcpToolNames → name ∈ s.worker.toolNames) ∧
        ∀ name ∈ s.synced, name ∉ rm.mcpToolNames → s.decision name ≠ some .added
  | .addTools _ _ | .removeTools _ => True

/-! ## The operations -/

variable {names toolNames : List Str} {name : Str} {rm : ResourceManager} {worker : Worker}

theorem mem_addNames : name ∈ Worker.addNames names toolNames ↔
    name ∈ toolNames ∨ name ∈ names := by
  unfold Worker.addNames
  induction names generalizing toolNames with
  | nil => simp
  | cons first rest ih =>
      rw [List.foldl_cons, ih, List.mem_cons]
      by_cases hfirst : first ∈ toolNames
      · rw [if_pos hfirst]
        constructor
        · exact fun h => h.imp_right Or.inr
        · rintro (h | rfl | h)
          · exact .inl h
          · exact .inl hfirst
          · exact .inr h
      · rw [if_neg hfirst, List.mem_append, List.mem_singleton, or_assoc]

theorem addNames_nodup (h : toolNames.Nodup) (names : List Str) :
    (Worker.addNames names toolNames).Nodup := by
  unfold Worker.addNames
  induction names generalizing toolNames with
  | nil => exact h
  | cons first rest ih =>
      rw [List.foldl_cons]
      apply ih
      split
      · exact h
      · rename_i hfirst
        rw [← List.concat_eq_append]
        exact h.concat hfirst

theorem mem_addTools : name ∈ (worker.addTools rm names).toolNames ↔
    name ∈ worker.toolNames ∨ name ∈ decided rm names :=
  mem_addNames

theorem mem_removeTools : name ∈ (removeTools names worker).toolNames ↔
    name ∈ worker.toolNames ∧ name ∉ names := by
  unfold removeTools
  dsimp only
  generalize worker.toolNames = toolNames
  induction names generalizing toolNames with
  | nil => simp
  | cons first rest ih =>
      rw [List.foldl_cons, ih]
      simp only [List.mem_filter, List.mem_cons, not_or, decide_eq_true_eq]
      tauto

theorem removeTools_nodup (h : worker.toolNames.Nodup) (names : List Str) :
    (removeTools names worker).toolNames.Nodup := by
  unfold removeTools
  dsimp only
  revert h
  generalize worker.toolNames = toolNames
  intro h
  induction names generalizing toolNames with
  | nil => exact h
  | cons first rest ih => exact ih _ (h.filter _)

/-- A tool that the worker takes for a server's is dropped once no server offers it; and what
is offered is added where the worker does not take it for a server's yet. -/
theorem mem_syncMcpTools : name ∈ (worker.syncMcpTools rm).toolNames ↔
    (name ∈ worker.toolNames ∨ name ∈ rm.mcpToolNames ∧ name ∉ worker.ownedMcpTools) ∧
      (name ∈ worker.ownedMcpTools → name ∈ rm.mcpToolNames) := by
  simp only [Worker.syncMcpTools, List.mem_filter, mem_addNames, decide_eq_true_eq, not_and,
    not_not]

/-- The names the worker takes for those of the servers are those they offer. -/
theorem mem_ownedMcpTools :
    name ∈ (worker.syncMcpTools rm).ownedMcpTools ↔ name ∈ rm.mcpToolNames := by
  simp only [Worker.syncMcpTools, List.mem_filter, List.mem_append, decide_eq_true_eq, not_and,
    not_not]
  constructor
  · rintro ⟨howned | ⟨hoffered, _⟩, hkept⟩
    · exact hkept howned
    · exact hoffered
  · intro hoffered
    refine ⟨?_, fun _ => hoffered⟩
    by_cases howned : name ∈ worker.ownedMcpTools
    · exact .inl howned
    · exact .inr ⟨hoffered, howned⟩

theorem syncMcpTools_nodup (h : worker.toolNames.Nodup) (rm : ResourceManager) :
    (worker.syncMcpTools rm).toolNames.Nodup :=
  (addNames_nodup h _).filter _

/-! ## Runs -/

/-- What holds between two calls. -/
structure Tracked (s : System) : Prop where
  nodup : s.worker.toolNames.Nodup
  owned : ∀ name, name ∈ s.worker.ownedMcpTools ↔ name ∈ s.synced
  added : ∀ name, s.decision name = some .added → name ∈ s.worker.toolNames

theorem Tracked.sync_kept_iff {s : System} (h : Tracked s) (rm : ResourceManager) :
    ((∀ name ∈ rm.mcpToolNames, name ∈ (s.worker.syncMcpTools rm).toolNames) ∧
      ∀ name ∈ s.worker.toolNames, s.decision name = some .added →
        name ∈ (s.worker.syncMcpTools rm).toolNames) ↔ Undisputed s (.syncMcpTools rm) := by
  simp only [mem_syncMcpTools, h.owned, Undisputed]
  constructor
  · rintro ⟨hoffered, hadded⟩
    constructor
    · intro name hsynced hname
      rcases (hoffered name hname).1 with hthere | ⟨_, hnot⟩
      · exact hthere
      · exact absurd hsynced hnot
    · intro name hsynced hname hdecision
      exact hname ((hadded name (h.added name hdecision) hdecision).2 hsynced)
  · rintro ⟨hthere, hdecided⟩
    constructor
    · intro name hname
      refine ⟨?_, fun _ => hname⟩
      by_cases hsynced : name ∈ s.synced
      · exact .inl (hthere name hsynced hname)
      · exact .inr ⟨hname, hsynced⟩
    · intro name hname hdecision
      refine ⟨.inl hname, fun hsynced => ?_⟩
      by_contra hoffered
      exact hdecided name hsynced hoffered hdecision

theorem step_kept_iff {s s' : System} {e : Event} (h : Tracked s) (hstep : step s e = some s') :
    Kept s e s' ↔ Undisputed s e := by
  cases e with
  | addTools rm toolNames =>
      cases hstep
      refine iff_of_true ⟨addNames_nodup h.nodup _, ?_, ?_⟩ trivial
      · intro _ hsync
        cases hsync
      · intro _ hsync
        cases hsync
  | removeTools toolNames =>
      cases hstep
      refine iff_of_true ⟨removeTools_nodup h.nodup _, ?_, ?_⟩ trivial
      · intro _ hsync
        cases hsync
      · intro _ hsync
        cases hsync
  | syncMcpTools rm =>
      cases hstep
      rw [← h.sync_kept_iff rm]
      constructor
      · exact fun hkept => ⟨hkept.offered rm rfl, hkept.added rm rfl⟩
      · intro hboth
        refine ⟨syncMcpTools_nodup h.nodup rm, ?_, ?_⟩
        · intro rm' hsync
          cases hsync
          exact hboth.1
        · intro rm' hsync
          cases hsync
          exact hboth.2

theorem Tracked.step {s s' : System} {e : Event} (h : Tracked s) (he : Undisputed s e)
    (hstep : step s e = some s') : Tracked s' := by
  have hkept := (step_kept_iff h hstep).mpr he
  cases e with
  | addTools rm toolNames =>
      cases hstep
      refine ⟨hkept.nodup, h.owned, fun name hdecision => ?_⟩
      rw [mem_addTools]
      simp only at hdecision
      split at hdecision
      · rename_i hnew
        exact .inr hnew
      · exact .inl (h.added name hdecision)
  | removeTools toolNames =>
      cases hstep
      refine ⟨hkept.nodup, h.owned, fun name hdecision => ?_⟩
      rw [mem_removeTools]
      simp only at hdecision
      split at hdecision
      · cases hdecision
      · rename_i hother
        exact ⟨h.added name hdecision, hother⟩
  | syncMcpTools rm =>
      cases hstep
      refine ⟨hkept.nodup, fun name => mem_ownedMcpTools, fun name hdecision => ?_⟩
      exact hkept.added rm rfl name (h.added name hdecision) hdecision

theorem tracked_start : Tracked {} := by
  refine ⟨List.nodup_nil, fun _ => Iff.rfl, ?_⟩
  intro name hdecision
  cases hdecision

/-- As long as every synchronisation is undisputed, every call keeps what is promised; and one
further call keeps it exactly if it is undisputed. -/
theorem kept_iff_undisputed {s s' : System} {e : Event} (hs : Run step Undisputed {} s)
    (hstep : step s e = some s') : s.worker.toolNames.Nodup ∧ (Kept s e s' ↔ Undisputed s e) := by
  have htracked : Tracked s := hs.invariant tracked_start fun _ _ _ ht he hnext => ht.step he hnext
  exact ⟨htracked.nodup, step_kept_iff htracked hstep⟩

/-- A registry with one tool, which a server offers too. -/
def offering : ResourceManager := { toolFactories := [lit "fetch"], mcpToolNames := [lit "fetch"] }

/-- An agent is given a tool; a server starts to offer one of that name, and stops. -/
theorem added_tool_dropped : ¬ ∀ (s s' : System) (e : Event),
    Run step AnyStep {} s → step s e = some s' → Kept s e s' := by
  intro hall
  let given : System :=
    { worker := { toolNames := [lit "fetch"] }
      decision := fun name => if name ∈ decided offering [lit "fetch"] then some .added else none }
  let offered : System :=
    { given with
      worker := { toolNames := [lit "fetch"], ownedMcpTools := [lit "fetch"] }
      synced := [lit "fetch"] }
  have hgiven : Run step AnyStep {} given :=
    .next (e := .addTools offering [lit "fetch"]) .start trivial (by rfl)
  have hoffered : Run step AnyStep {} offered :=
    .next (e := .syncMcpTools offering) hgiven trivial (by rfl)
  have hkept := hall offered _ (.syncMcpTools {}) hoffered rfl
  have hthere := hkept.added {} rfl (lit "fetch") (by decide) (by decide)
  revert hthere
  decide

/-- A tool that only the server has. -/
theorem offered_tool_kept :
    let s : System :=
      { worker := { toolNames := [lit "fetch"], ownedMcpTools := [lit "fetch"] }
        synced := [lit "fetch"] }
    let s' : System := {}
    Run step Undisputed {} s ∧ step s (.syncMcpTools {}) = some s' ∧
      s.worker.toolNames.Nodup ∧
        (Kept s (.syncMcpTools {}) s' ↔ Undisputed s (.syncMcpTools {})) := by
  intro s s'
  have hs : Run step Undisputed {} s := by
    refine .next (e := .syncMcpTools offering) .start ?_ (by rfl)
    exact ⟨List.forall_mem_nil _, List.forall_mem_nil _⟩
  have hstep : step s (.syncMcpTools {}) = some s' := by rfl
  exact ⟨hs, hstep, kept_iff_undisputed hs hstep⟩

end JiuwenCore.ToolSync
