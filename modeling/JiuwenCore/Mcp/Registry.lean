import JiuwenCore.Text
import Mathlib.Data.Finset.Insert
import Mathlib.Data.List.AList

/-!
# The tool registry

`ResourceManager` keeps the factories of all stateless tools in one map: those of the program
and those of the connected MCP servers. Which names came from a server is a set beside it; from
which server is known to the factory only.
-/

namespace JiuwenCore.Mcp

structure ToolParam where
  name : Str
  description : Str
  type : Str
  required : Bool := false
  deriving DecidableEq, Repr

/-- What the factory of an MCP tool makes, with the connection it holds. -/
structure McpTool where
  name : Str
  description : Str
  params : List ToolParam
  server : Nat
  deriving DecidableEq, Repr

inductive ToolFactory where
  | builtin (tool : Str)
  | mcp (tool : McpTool)
  deriving DecidableEq, Repr

/-- The connection a tool calls. -/
def ToolFactory.server : ToolFactory → Option Nat
  | builtin _ => none
  | mcp tool => some tool.server

structure Registry where
  toolFactories : AList (fun _ : Str => ToolFactory) := ∅
  mcpToolNames : Finset Str := ∅
  promptSchemas : AList (fun _ : Str => Str) := ∅
  functionCallSchemas : AList (fun _ : Str => Str) := ∅

namespace Registry

def registerTool (name : Str) (factory : ToolFactory) (r : Registry) : Registry :=
  { r with
    toolFactories := r.toolFactories.insert name factory
    promptSchemas := r.promptSchemas.erase name
    functionCallSchemas := r.functionCallSchemas.erase name }

def registerMcpTool (name : Str) (tool : McpTool) (r : Registry) : Registry :=
  let r := r.registerTool name (.mcp tool)
  { r with mcpToolNames := insert name r.mcpToolNames }

def unregisterMcpTool (name : Str) (r : Registry) : Registry where
  mcpToolNames := r.mcpToolNames.erase name
  toolFactories := r.toolFactories.erase name
  promptSchemas := r.promptSchemas.erase name
  functionCallSchemas := r.functionCallSchemas.erase name

/-- What `CreateTool` finds. -/
def find (r : Registry) (name : Str) : Option ToolFactory := r.toolFactories.lookup name

/-- The name is known as that of an MCP tool, and calls the connection. -/
def Bound (r : Registry) (server : Nat) (name : Str) : Prop :=
  name ∈ r.mcpToolNames ∧ ∃ factory, r.find name = some factory ∧ factory.server = some server

/-- The same tools under the same names. -/
def SameTools (r r' : Registry) : Prop :=
  r.find = r'.find ∧ r.mcpToolNames = r'.mcpToolNames

/-- The names in the set are those with a factory of a server. -/
def Consistent (r : Registry) : Prop :=
  ∀ name, name ∈ r.mcpToolNames ↔
    ∃ factory server, r.find name = some factory ∧ factory.server = some server

variable {r r' : Registry} {name other : Str} {tool : McpTool}

@[simp] theorem find_registerMcpTool :
    (r.registerMcpTool name tool).find name = some (.mcp tool) :=
  AList.lookup_insert _

theorem find_registerMcpTool_ne (h : other ≠ name) :
    (r.registerMcpTool name tool).find other = r.find other :=
  AList.lookup_insert_ne h

@[simp] theorem find_unregisterMcpTool : (r.unregisterMcpTool name).find name = none :=
  AList.lookup_erase _ _

theorem find_unregisterMcpTool_ne (h : other ≠ name) :
    (r.unregisterMcpTool name).find other = r.find other :=
  AList.lookup_erase_ne h

theorem Consistent.registerMcpTool (h : r.Consistent) (name : Str) (tool : McpTool) :
    (r.registerMcpTool name tool).Consistent := by
  intro other
  have hmem : other ∈ (r.registerMcpTool name tool).mcpToolNames ↔
      other = name ∨ other ∈ r.mcpToolNames := Finset.mem_insert
  rw [hmem]
  by_cases hother : other = name
  · rw [hother]
    exact iff_of_true (.inl rfl) ⟨_, _, find_registerMcpTool, rfl⟩
  · rw [find_registerMcpTool_ne hother, ← h other]
    exact or_iff_right hother

theorem Consistent.unregisterMcpTool (h : r.Consistent) (name : Str) :
    (r.unregisterMcpTool name).Consistent := by
  intro other
  have hmem : other ∈ (r.unregisterMcpTool name).mcpToolNames ↔
      other ≠ name ∧ other ∈ r.mcpToolNames := Finset.mem_erase
  rw [hmem]
  by_cases hother : other = name
  · rw [hother, find_unregisterMcpTool]
    refine iff_of_false (fun hboth => hboth.1 rfl) ?_
    rintro ⟨factory, server, hfind, _⟩
    cases hfind
  · rw [find_unregisterMcpTool_ne hother, ← h other]
    exact and_iff_right hother

theorem Consistent.bound_iff (h : r.Consistent) {server : Nat} :
    r.Bound server name ↔ ∃ factory, r.find name = some factory ∧
      factory.server = some server := by
  constructor
  · exact fun hbound => hbound.2
  · rintro ⟨factory, hfind, hserver⟩
    exact ⟨(h name).mpr ⟨factory, server, hfind, hserver⟩, factory, hfind, hserver⟩

/-! ## Many names -/

def unregisterAll (names : List Str) (r : Registry) : Registry :=
  names.foldl (fun r name => r.unregisterMcpTool name) r

theorem Consistent.unregisterAll (h : r.Consistent) (names : List Str) :
    (r.unregisterAll names).Consistent := by
  induction names generalizing r with
  | nil => exact h
  | cons name rest ih => exact ih (h.unregisterMcpTool name)

theorem find_unregisterAll (names : List Str) (r : Registry) (other : Str) :
    (r.unregisterAll names).find other = if other ∈ names then none else r.find other := by
  induction names generalizing r with
  | nil => rfl
  | cons name rest ih =>
      have hnext : (r.unregisterAll (name :: rest)).find other =
          ((r.unregisterMcpTool name).unregisterAll rest).find other := rfl
      rw [hnext, ih]
      by_cases hother : other = name
      · rw [hother, find_unregisterMcpTool, if_pos List.mem_cons_self, ite_self]
      · rw [find_unregisterMcpTool_ne hother]
        simp only [List.mem_cons, hother, false_or]

end Registry

end JiuwenCore.Mcp
