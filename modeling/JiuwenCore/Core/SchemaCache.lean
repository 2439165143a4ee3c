import JiuwenCore.Lib.Runs
import JiuwenCore.Models.Request
import Mathlib.Logic.Function.Basic

/-!
# The schema caches

`ResourceManager` caches what a tool says of itself. `GetToolSchema`, `BuildToolSchemas` and
`GetToolCatalog` fill the caches: they copy the factory under the lock, make a tool outside
it, and store the schema under the lock again. The registration of a tool erases what is
cached under its name. What the readers return plays no part here.
-/

namespace JiuwenCore.SchemaCache

open Models (ToolSchema)

variable {F : Type}

/-! ## The tables -/

/-- What a tool that a factory has made says of itself: `GetSchema()`, and its name,
description and parameters. -/
structure Probe where
  text : Str
  schema : ToolSchema

/-- The tables behind `toolMutex_`. A cached schema carries the factory it comes from. -/
structure Tools (F : Type) where
  toolFactories : Str → Option F := fun _ => none
  sessionToolFactories : Str → Option F := fun _ => none
  promptSchemas : Str → Option (F × Str) := fun _ => none
  functionCallSchemas : Str → Option (F × ToolSchema) := fun _ => none

namespace Tools

/-- The factory of a name; a session tool comes first. -/
def factory (t : Tools F) (name : Str) : Option F :=
  match t.sessionToolFactories name with
  | some f => some f
  | none => t.toolFactories name

/-- Nothing is cached under a name. -/
def erase (name : Str) (t : Tools F) : Tools F :=
  { t with
    promptSchemas := Function.update t.promptSchemas name none
    functionCallSchemas := Function.update t.functionCallSchemas name none }

def registerTool (name : Str) (f : F) (t : Tools F) : Tools F :=
  erase name { t with toolFactories := Function.update t.toolFactories name (some f) }

def registerSessionTool (name : Str) (f : F) (t : Tools F) : Tools F :=
  erase name { t with sessionToolFactories := Function.update t.sessionToolFactories name (some f) }

/-- `RegisterMcpTool`, without the set of the names that come from servers. -/
def registerMcpTool (name : Str) (f : F) (t : Tools F) : Tools F := t.registerTool name f

def unregisterMcpTool (name : Str) (t : Tools F) : Tools F :=
  erase name { t with toolFactories := Function.update t.toolFactories name none }

end Tools

/-! ## The readers -/

inductive Reader where
  | getToolSchema
  | buildToolSchemas
  | getToolCatalog
  deriving DecidableEq, Repr

/-- How far a call is with its first name: it has yet to look into the cache; it has found
nothing and released the lock; it has a copy of the factory; it has the schema. -/
inductive Stage (F : Type) where
  | looking
  | missed
  | copied (f : F)
  | probed (f : F) (probe : Probe)

/-- A call, with the names it has yet to go through. -/
structure Call (F : Type) where
  reader : Reader
  names : List Str
  stage : Stage F := .looking

/-- The cache that a reader fills has the name. -/
def Tools.cached (t : Tools F) (reader : Reader) (name : Str) : Bool :=
  match reader with
  | .getToolSchema => (t.promptSchemas name).isSome
  | .buildToolSchemas | .getToolCatalog => (t.functionCallSchemas name).isSome

/-- The write-back, which does not look whether the factory is still there. -/
def Tools.store (t : Tools F) (reader : Reader) (name : Str) (f : F) (probe : Probe) : Tools F :=
  match reader with
  | .getToolSchema =>
      { t with promptSchemas := Function.update t.promptSchemas name (some (f, probe.text)) }
  | .buildToolSchemas | .getToolCatalog =>
      { t with
        functionCallSchemas :=
          Function.update t.functionCallSchemas name (some (f, probe.schema)) }

/-- The lookup of the factory. A name without one is passed over; `GetToolSchema`, which has
only one name, throws. -/
def Tools.copy (t : Tools F) (reader : Reader) (name : Str) (rest : List Str) : Call F :=
  match t.factory name with
  | some f => { reader := reader, names := name :: rest, stage := .copied f }
  | none => { reader := reader, names := rest }

/-- The next section of a call. `BuildToolSchemas` looks up the factory under the lock under
which it has looked into the cache. `probe` is what the factory makes, if it makes a tool. -/
def Call.proceed (t : Tools F) (call : Call F) (probe : Option Probe) :
    Option (Tools F × Call F) :=
  match call.names, call.stage with
  | [], _ => none
  | name :: rest, .looking =>
      if t.cached call.reader name then some (t, { reader := call.reader, names := rest })
      else if call.reader = .buildToolSchemas then some (t, t.copy call.reader name rest)
      else some (t, { call with stage := .missed })
  | name :: rest, .missed => some (t, t.copy call.reader name rest)
  | _ :: rest, .copied f =>
      match probe with
      | some probe => some (t, { call with stage := .probed f probe })
      | none => some (t, { reader := call.reader, names := rest })
  | name :: rest, .probed f probe =>
      some (t.store call.reader name f probe, { reader := call.reader, names := rest })

/-! ## The system -/

structure System (F : Type) where
  tools : Tools F := {}
  calls : List (Call F) := []

inductive Event (F : Type) where
  | registerTool (name : Str) (f : F)
  | registerSessionTool (name : Str) (f : F)
  | registerMcpTool (name : Str) (f : F)
  | unregisterMcpTool (name : Str)
  | getToolSchema (name : Str)
  | buildToolSchemas (toolNames : List Str)
  | getToolCatalog (visibleNames : List Str)
  /-- A call goes on; `probe` matters where it makes a tool. -/
  | proceed (i : Nat) (probe : Option Probe)

def System.begin (s : System F) (reader : Reader) (names : List Str) : System F :=
  { s with calls := s.calls ++ [{ reader := reader, names := names }] }

def step (s : System F) : Event F → Option (System F)
  | .registerTool name f => some { s with tools := s.tools.registerTool name f }
  | .registerSessionTool name f => some { s with tools := s.tools.registerSessionTool name f }
  | .registerMcpTool name f => some { s with tools := s.tools.registerMcpTool name f }
  | .unregisterMcpTool name => some { s with tools := s.tools.unregisterMcpTool name }
  | .getToolSchema name => some (s.begin .getToolSchema [name])
  | .buildToolSchemas toolNames => some (s.begin .buildToolSchemas toolNames)
  | .getToolCatalog visibleNames => some (s.begin .getToolCatalog visibleNames)
  | .proceed i probe =>
      (s.calls[i]?).bind fun call => (call.proceed s.tools probe).map fun (tools, call) =>
        { tools := tools, calls := s.calls.set i call }

/-- Every cached schema comes from the factory that is registered under its name. -/
structure Tools.Coherent (t : Tools F) : Prop where
  prompt : ∀ name f text, t.promptSchemas name = some (f, text) → t.factory name = some f
  functionCall : ∀ name f schema, t.functionCallSchemas name = some (f, schema) →
    t.factory name = some f

/-- What a call is about to store: the name and the factory of the schema. -/
def Call.pending (call : Call F) : Option (Str × F) :=
  match call.names, call.stage with
  | name :: _, .probed f _ => some (name, f)
  | _, _ => none

/-- A call that stores a schema stores that of the factory which is registered now. -/
def Current (s : System F) : Event F → Prop
  | .proceed i _ => ∀ call ∈ s.calls[i]?, ∀ entry ∈ call.pending,
      s.tools.factory entry.1 = some entry.2
  | .registerTool _ _ | .registerSessionTool _ _ | .registerMcpTool _ _ | .unregisterMcpTool _
  | .getToolSchema _ | .buildToolSchemas _ | .getToolCatalog _ => True

instance [DecidableEq F] (s : System F) : (e : Event F) → Decidable (Current s e)
  | .proceed i _ =>
      inferInstanceAs (Decidable (∀ call ∈ s.calls[i]?, ∀ entry ∈ call.pending,
        s.tools.factory entry.1 = some entry.2))
  | .registerTool _ _ | .registerSessionTool _ _ | .registerMcpTool _ _ | .unregisterMcpTool _
  | .getToolSchema _ | .buildToolSchemas _ | .getToolCatalog _ => inferInstanceAs (Decidable True)

/-! ## Registration -/

variable {t t' : Tools F} {name : Str}

/-- The tables agree on every other name, and nothing is cached under this one. -/
structure Tools.Renewed (name : Str) (t t' : Tools F) : Prop where
  factory : ∀ other, other ≠ name → t'.factory other = t.factory other
  prompt : t'.promptSchemas = Function.update t.promptSchemas name none
  functionCall : t'.functionCallSchemas = Function.update t.functionCallSchemas name none

theorem Tools.registerTool_renewed (t : Tools F) (name : Str) (f : F) :
    Renewed name t (t.registerTool name f) := by
  refine ⟨fun other hother => ?_, rfl, rfl⟩
  simp [factory, registerTool, erase, Function.update_of_ne hother]

theorem Tools.registerSessionTool_renewed (t : Tools F) (name : Str) (f : F) :
    Renewed name t (t.registerSessionTool name f) := by
  refine ⟨fun other hother => ?_, rfl, rfl⟩
  simp [factory, registerSessionTool, erase, Function.update_of_ne hother]

theorem Tools.unregisterMcpTool_renewed (t : Tools F) (name : Str) :
    Renewed name t (t.unregisterMcpTool name) := by
  refine ⟨fun other hother => ?_, rfl, rfl⟩
  simp [factory, unregisterMcpTool, erase, Function.update_of_ne hother]

theorem of_update_none {α : Type*} {cached : Str → Option α} {name other : Str} {a : α}
    (h : Function.update cached name none other = some a) : other ≠ name ∧ cached other = some a := by
  by_cases hother : other = name
  · rw [hother, Function.update_self] at h
    cases h
  · rw [Function.update_of_ne hother] at h
    exact ⟨hother, h⟩

theorem Tools.Coherent.renew (h : t.Coherent) (hrenewed : Renewed name t t') : t'.Coherent := by
  constructor
  · intro other f text hcached
    rw [hrenewed.prompt] at hcached
    obtain ⟨hother, hbefore⟩ := of_update_none hcached
    rw [hrenewed.factory other hother]
    exact h.prompt other f text hbefore
  · intro other f schema hcached
    rw [hrenewed.functionCall] at hcached
    obtain ⟨hother, hbefore⟩ := of_update_none hcached
    rw [hrenewed.factory other hother]
    exact h.functionCall other f schema hbefore

/-! ## Storing -/

theorem Tools.store_factory (t : Tools F) (reader : Reader) (name : Str) (f : F) (probe : Probe) :
    (t.store reader name f probe).factory = t.factory := by
  cases reader <;> rfl

/-- A cache with one more schema is coherent exactly if that schema is current. -/
theorem Tools.store_coherent_iff (h : t.Coherent) (reader : Reader) (name : Str) (f : F)
    (probe : Probe) : (t.store reader name f probe).Coherent ↔ t.factory name = some f := by
  constructor
  · intro hstored
    rw [← t.store_factory reader name f probe]
    cases reader with
    | getToolSchema => exact hstored.prompt name f probe.text (Function.update_self ..)
    | buildToolSchemas => exact hstored.functionCall name f probe.schema (Function.update_self ..)
    | getToolCatalog => exact hstored.functionCall name f probe.schema (Function.update_self ..)
  · intro hcurrent
    have hentry : ∀ {α : Type} (cache : Str → Option (F × α)) (schema : α),
        (∀ other g s, cache other = some (g, s) → t.factory other = some g) →
        ∀ other g s, Function.update cache name (some (f, schema)) other = some (g, s) →
          t.factory other = some g := by
      intro α cache schema hcache other g s hcached
      by_cases hother : other = name
      · rw [hother, Function.update_self, Option.some.injEq, Prod.mk.injEq] at hcached
        rw [hother, ← hcached.1]
        exact hcurrent
      · rw [Function.update_of_ne hother] at hcached
        exact hcache other g s hcached
    cases reader with
    | getToolSchema => exact ⟨hentry _ probe.text h.prompt, h.functionCall⟩
    | buildToolSchemas => exact ⟨h.prompt, hentry _ probe.schema h.functionCall⟩
    | getToolCatalog => exact ⟨h.prompt, hentry _ probe.schema h.functionCall⟩

theorem Call.proceed_coherent_iff (h : t.Coherent) {call call' : Call F} {probe : Option Probe}
    (hstep : call.proceed t probe = some (t', call')) :
    t'.Coherent ↔ ∀ entry ∈ call.pending, t.factory entry.1 = some entry.2 := by
  obtain ⟨reader, names, stage⟩ := call
  unfold proceed at hstep
  have hquiet : t' = t → (⟨reader, names, stage⟩ : Call F).pending = none →
      (t'.Coherent ↔ ∀ entry ∈ (⟨reader, names, stage⟩ : Call F).pending,
        t.factory entry.1 = some entry.2) := by
    intro hsame hnone
    rw [hsame, hnone]
    exact iff_of_true h fun entry hentry => absurd hentry (Option.not_mem_none entry)
  cases names with
  | nil => cases hstep
  | cons name rest =>
      cases stage with
      | looking =>
          simp only at hstep
          split_ifs at hstep <;> cases hstep <;> exact hquiet rfl rfl
      | missed =>
          cases hstep
          exact hquiet rfl rfl
      | copied f =>
          cases probe with
          | none =>
              cases hstep
              exact hquiet rfl rfl
          | some probe =>
              cases hstep
              exact hquiet rfl rfl
      | probed f probe =>
          cases hstep
          rw [Tools.store_coherent_iff h]
          simp [pending]

/-! ## Runs -/

theorem step_coherent_iff {s s' : System F} {e : Event F} (h : s.tools.Coherent)
    (hstep : step s e = some s') : s'.tools.Coherent ↔ Current s e := by
  cases e with
  | registerTool name f =>
      cases hstep
      exact iff_of_true (h.renew (s.tools.registerTool_renewed name f)) trivial
  | registerSessionTool name f =>
      cases hstep
      exact iff_of_true (h.renew (s.tools.registerSessionTool_renewed name f)) trivial
  | registerMcpTool name f =>
      cases hstep
      exact iff_of_true (h.renew (s.tools.registerTool_renewed name f)) trivial
  | unregisterMcpTool name =>
      cases hstep
      exact iff_of_true (h.renew (s.tools.unregisterMcpTool_renewed name)) trivial
  | getToolSchema name =>
      cases hstep
      exact iff_of_true h trivial
  | buildToolSchemas toolNames =>
      cases hstep
      exact iff_of_true h trivial
  | getToolCatalog visibleNames =>
      cases hstep
      exact iff_of_true h trivial
  | proceed i probe =>
      obtain ⟨call, hcall, hproceed⟩ := Option.bind_eq_some_iff.mp hstep
      obtain ⟨⟨tools, call'⟩, hnext, heq⟩ := Option.map_eq_some_iff.mp hproceed
      cases heq
      rw [Call.proceed_coherent_iff h hnext]
      simp [Current, hcall]

/-- The caches are coherent throughout as long as no call stores the schema of a factory that
has been replaced or removed since; and a further step keeps them so exactly if it does not. -/
theorem coherent_iff_current {s s' : System F} {e : Event F} (hs : Run step Current {} s)
    (hstep : step s e = some s') : s.tools.Coherent ∧ (s'.tools.Coherent ↔ Current s e) := by
  have hempty : ({} : System F).tools.Coherent := by
    constructor
    · intro name f text hcached
      cases hcached
    · intro name f schema hcached
      cases hcached
  have hcoherent : s.tools.Coherent := by
    refine hs.invariant (motive := fun s => s.tools.Coherent) hempty ?_
    intro s e s' ht hcurrent hnext
    exact (step_coherent_iff ht hnext).mpr hcurrent
  exact ⟨hcoherent, step_coherent_iff hcoherent hstep⟩

/-- What the tool `fetch` of a server says of itself. -/
def fetchProbe : Probe :=
  { text := lit "fetch: gets a page", schema := ⟨lit "fetch", lit "gets a page", .obj []⟩ }

/-- A server is removed while the schema of its tool is made. -/
theorem removed_tool_cached : ¬ ∀ s : System Nat, Run step AnyStep {} s → s.tools.Coherent := by
  intro hall
  let events : List (Event Nat) :=
    [.registerMcpTool (lit "fetch") 0, .getToolSchema (lit "fetch"), .proceed 0 none,
      .proceed 0 none, .proceed 0 (some fetchProbe), .unregisterMcpTool (lit "fetch"),
      .proceed 0 none]
  obtain ⟨s, hs, hcached, hfactory⟩ := exists_run_of_any step AnyStep {} events
    (p := fun s : System Nat => s.tools.promptSchemas (lit "fetch") =
      some (0, lit "fetch: gets a page") ∧ s.tools.factory (lit "fetch") = none) (by decide)
  have hcurrent := (hall s hs).prompt _ _ _ hcached
  rw [hfactory] at hcurrent
  cases hcurrent

/-- The same call, with nothing in between. -/
theorem kept_tool_cached : ∃ s s' : System Nat, Run step Current {} s ∧
    step s (.proceed 0 none) = some s' ∧
      s.tools.Coherent ∧ (s'.tools.Coherent ↔ Current s (.proceed 0 none)) := by
  let events : List (Event Nat) :=
    [.registerMcpTool (lit "fetch") 0, .getToolSchema (lit "fetch"), .proceed 0 none,
      .proceed 0 none, .proceed 0 (some fetchProbe)]
  obtain ⟨s, hs, hnext⟩ := exists_run_of_any step Current {} events
    (p := fun s : System Nat => (step s (.proceed 0 none)).isSome = true) (by decide)
  obtain ⟨s', hstep⟩ := Option.isSome_iff_exists.mp hnext
  exact ⟨s, s', hs, hstep, coherent_iff_current hs hstep⟩

end JiuwenCore.SchemaCache
