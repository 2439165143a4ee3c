import Mathlib.Data.List.Nodup
import Mathlib.Data.List.Perm.Basic

/-!
# Walks of a forest

The entries of a directory, with those below each of them. A walk lists them from the root
down, every entry before those below it, and may end early at a branch that does not open.
-/

namespace JiuwenCore

/-- Named entries in some order. A branch has entries below it, a leaf has none. -/
inductive Forest (ν α β : Type*) where
  | nil
  | leaf (name : ν) (a : α) (rest : Forest ν α β)
  | branch (name : ν) (b : β) (below rest : Forest ν α β)

namespace Forest

variable {ν α β : Type*}

/-- An entry: the names that lead to it, and what it is. -/
abbrev Found (ν α β : Type*) := List ν × (α ⊕ β)

def names : Forest ν α β → List ν
  | nil => []
  | leaf name _ rest => name :: rest.names
  | branch name _ _ rest => name :: rest.names

/-- The entries at the top. -/
def top : Forest ν α β → List (Found ν α β)
  | nil => []
  | leaf name a rest => ([name], .inl a) :: rest.top
  | branch name b _ rest => ([name], .inr b) :: rest.top

/-- All entries below `root`. -/
@[grind =] def walk (root : List ν) : Forest ν α β → List (Found ν α β)
  | nil => []
  | leaf name a rest => (root ++ [name], .inl a) :: rest.walk root
  | branch name b below rest =>
      (root ++ [name], .inr b) :: (below.walk (root ++ [name]) ++ rest.walk root)

/-- The walk with the places at which it cannot go on. -/
@[grind =] def steps (opens : β → Bool) (root : List ν) : Forest ν α β → List (Option (Found ν α β))
  | nil => []
  | leaf name a rest => some (root ++ [name], .inl a) :: rest.steps opens root
  | branch name b below rest =>
      some (root ++ [name], .inr b) ::
        ((if opens b then below.steps opens (root ++ [name]) else [none]) ++ rest.steps opens root)

/-- Every branch opens. -/
def Open (opens : β → Bool) : Forest ν α β → Prop
  | nil => True
  | leaf _ _ rest => rest.Open opens
  | branch _ b below rest => opens b = true ∧ below.Open opens ∧ rest.Open opens

/-- Every name, at every place. -/
def AllNames (p : ν → Prop) : Forest ν α β → Prop
  | nil => True
  | leaf name _ rest => p name ∧ rest.AllNames p
  | branch name _ below rest => p name ∧ below.AllNames p ∧ rest.AllNames p

theorem steps_of_open {opens : β → Bool} {f : Forest ν α β} (h : f.Open opens) (root : List ν) :
    f.steps opens root = (f.walk root).map some := by
  induction f generalizing root with
  | nil => rfl
  | leaf name a rest ih => rw [steps, walk, List.map_cons, ih h]
  | branch name b below rest ihBelow ihRest =>
      obtain ⟨hb, hbelow, hrest⟩ := h
      rw [steps, walk, if_pos hb, ihBelow hbelow, ihRest hrest, List.map_cons, List.map_append]

/-- A walk is stopped exactly where a branch does not open. -/
theorem none_mem_steps_iff {opens : β → Bool} {f : Forest ν α β} (root : List ν) :
    none ∈ f.steps opens root ↔ ¬ f.Open opens := by
  induction f generalizing root with
  | nil => simp [steps, Open]
  | leaf name a rest ih => simp [steps, Open, ih]
  | branch name b below rest ihBelow ihRest =>
      rw [steps, Open, List.mem_cons, List.mem_append, ihRest]
      by_cases hb : opens b = true
      · rw [if_pos hb, ihBelow]
        simp only [reduceCtorEq, false_or]
        tauto
      · simp [hb]

/-- Up to the first stop the turns are the beginning of the walk. -/
theorem steps_cases (opens : β → Bool) (f : Forest ν α β) (root : List ν) :
    f.steps opens root = (f.walk root).map some ∨
      ∃ before rest, f.steps opens root = before.map some ++ none :: rest ∧
        before <+: f.walk root := by
  induction f generalizing root with
  | nil => exact Or.inl rfl
  | leaf name a rest ih =>
      rcases ih root with hall | ⟨before, after, hstop, hbefore⟩
      · exact Or.inl (by rw [steps, walk, hall, List.map_cons])
      · refine Or.inr ⟨(root ++ [name], .inl a) :: before, after, ?_, ?_⟩
        · rw [steps, hstop, List.map_cons, List.cons_append]
        · exact (List.prefix_cons_inj _).mpr hbefore
  | branch name b below rest ihBelow ihRest =>
      rw [steps, walk]
      by_cases hb : opens b = true
      · rw [if_pos hb]
        rcases ihBelow (root ++ [name]) with hall | ⟨before, after, hstop, hbefore⟩
        · rcases ihRest root with hall' | ⟨before, after, hstop, hbefore⟩
          · exact Or.inl (by rw [hall, hall', List.map_cons, List.map_append])
          · refine Or.inr ⟨(root ++ [name], .inr b) :: (below.walk (root ++ [name]) ++ before), after,
              ?_, ?_⟩
            · rw [hall, hstop, List.map_cons, List.map_append, List.cons_append, List.append_assoc]
            · exact (List.prefix_cons_inj _).mpr ((List.prefix_append_right_inj _).mpr hbefore)
        · refine Or.inr ⟨(root ++ [name], .inr b) :: before, after ++ rest.steps opens root, ?_, ?_⟩
          · rw [hstop, List.map_cons, List.cons_append, List.append_assoc, List.cons_append]
          · exact (List.prefix_cons_inj _).mpr (hbefore.trans (List.prefix_append _ _))
      · rw [if_neg hb]
        refine Or.inr ⟨[(root ++ [name], .inr b)], rest.steps opens root, rfl, ?_⟩
        exact (List.prefix_cons_inj _).mpr (List.nil_prefix)

theorem mem_walk_names {p : ν → Prop} {f : Forest ν α β} (h : f.AllNames p) {root : List ν}
    (hroot : ∀ name ∈ root, p name) {found : Found ν α β} (hmem : found ∈ f.walk root) :
    ∀ name ∈ found.1, p name := by
  induction f generalizing root with
  | nil => cases hmem
  | leaf name a rest ih =>
      rcases List.mem_cons.mp hmem with rfl | hmem
      · exact List.forall_mem_append.mpr ⟨hroot, List.forall_mem_singleton.mpr h.1⟩
      · exact ih h.2 hroot hmem
  | branch name b below rest ihBelow ihRest =>
      obtain ⟨hname, hbelow, hrest⟩ := h
      have hfirst : ∀ other ∈ root ++ [name], p other :=
        List.forall_mem_append.mpr ⟨hroot, List.forall_mem_singleton.mpr hname⟩
      rcases List.mem_cons.mp hmem with rfl | hmem
      · exact hfirst
      · rcases List.mem_append.mp hmem with hmem | hmem
        · exact ihBelow hbelow hfirst hmem
        · exact ihRest hrest hroot hmem

/-! ## Leaving entries out -/

/-- The forest without the entries of other names, and without what is below them. -/
def prune (keep : ν → Bool) : Forest ν α β → Forest ν α β
  | nil => nil
  | leaf name a rest => if keep name then leaf name a (rest.prune keep) else rest.prune keep
  | branch name b below rest =>
      if keep name then branch name b (below.prune keep) (rest.prune keep) else rest.prune keep

theorem walk_under {root : List ν} {f : Forest ν α β} {found : Found ν α β}
    (h : found ∈ f.walk root) : ∃ name ∈ f.names, root ++ [name] <+: found.1 := by
  induction f generalizing root with
  | nil => cases h
  | leaf name a rest ih =>
      rcases List.mem_cons.mp h with rfl | h
      · exact ⟨name, List.mem_cons_self, List.prefix_rfl⟩
      · obtain ⟨other, hother, hpath⟩ := ih h
        exact ⟨other, List.mem_cons_of_mem _ hother, hpath⟩
  | branch name b below rest ihBelow ihRest =>
      rcases List.mem_cons.mp h with rfl | h
      · exact ⟨name, List.mem_cons_self, List.prefix_rfl⟩
      · rcases List.mem_append.mp h with h | h
        · obtain ⟨other, -, hpath⟩ := ihBelow h
          exact ⟨name, List.mem_cons_self, (List.prefix_append _ [other]).trans hpath⟩
        · obtain ⟨other, hother, hpath⟩ := ihRest h
          exact ⟨other, List.mem_cons_of_mem _ hother, hpath⟩

/-- Below an entry that is left out nothing has only names that are kept. -/
theorem walk_filter_out {keep : ν → Bool} {root : List ν} (h : root.all keep = false)
    (f : Forest ν α β) : (f.walk root).filter (fun found => found.1.all keep) = [] := by
  rw [List.filter_eq_nil_iff]
  intro found hmem hkept
  obtain ⟨name, -, rest, hpath⟩ := walk_under hmem
  rw [← hpath, List.append_assoc, List.all_append, h] at hkept
  cases hkept

/-- Testing every name on the way to an entry of the walk is walking the pruned forest. -/
theorem walk_prune {keep : ν → Bool} {root : List ν} (h : root.all keep = true)
    (f : Forest ν α β) :
    (f.walk root).filter (fun found => found.1.all keep) = (f.prune keep).walk root := by
  induction f generalizing root with
  | nil => rfl
  | leaf name a rest ih =>
      rw [walk, prune, List.filter_cons, ih h]
      by_cases hname : keep name = true
      · simp [h, hname, walk]
      · simp [hname]
  | branch name b below rest ihBelow ihRest =>
      rw [walk, prune, List.filter_cons, List.filter_append, ihRest h]
      by_cases hname : keep name = true
      · have hroot : (root ++ [name]).all keep = true := by simp [h, hname]
        rw [if_pos hroot, if_pos hname, ihBelow hroot, walk]
      · have hroot : (root ++ [name]).all keep = false := by simp [hname]
        rw [hroot, if_neg (by decide), if_neg hname, walk_filter_out hroot, List.nil_append]

/-! ## Distinct names -/

/-- No two entries of one place have the same name. -/
def Distinct : Forest ν α β → Prop
  | nil => True
  | leaf name _ rest => name ∉ rest.names ∧ rest.Distinct
  | branch name _ below rest => name ∉ rest.names ∧ below.Distinct ∧ rest.Distinct

theorem mem_walk_ne {root : List ν} {name : ν} {f : Forest ν α β} (h : name ∉ f.names)
    {path : List ν} (hpath : root ++ [name] <+: path) : path ∉ (f.walk root).map (·.1) := by
  intro hmem
  obtain ⟨found, hfound, rfl⟩ := List.mem_map.mp hmem
  obtain ⟨other, hother, hunder⟩ := walk_under hfound
  have hsame : root ++ [name] = root ++ [other] :=
    (List.prefix_of_prefix_length_le hpath hunder (by simp)).eq_of_length (by simp)
  have hname : name = other := by simpa using hsame
  exact h (hname ▸ hother)

/-- A walk comes to every entry once. -/
theorem walk_nodup {f : Forest ν α β} (h : f.Distinct) (root : List ν) :
    ((f.walk root).map (·.1)).Nodup := by
  induction f generalizing root with
  | nil => exact List.nodup_nil
  | leaf name a rest ih =>
      rw [walk, List.map_cons, List.nodup_cons]
      exact ⟨mem_walk_ne h.1 List.prefix_rfl, ih h.2 root⟩
  | branch name b below rest ihBelow ihRest =>
      obtain ⟨hname, hbelow, hrest⟩ := h
      rw [walk, List.map_cons, List.map_append, List.nodup_cons, List.mem_append, not_or,
        List.nodup_append]
      have hfirst : root ++ [name] ∉ (below.walk (root ++ [name])).map (·.1) := by
        intro hmem
        obtain ⟨found, hfound, heq⟩ := List.mem_map.mp hmem
        obtain ⟨other, -, hunder⟩ := walk_under hfound
        have hlength := hunder.length_le
        rw [heq, List.length_append, List.length_singleton] at hlength
        omega
      refine ⟨⟨hfirst, mem_walk_ne hname List.prefix_rfl⟩, ihBelow hbelow _, ihRest hrest _, ?_⟩
      intro path hpath other hother heq
      obtain ⟨found, hfound, rfl⟩ := List.mem_map.mp hpath
      obtain ⟨deeper, -, hunder⟩ := walk_under hfound
      have hbranch : root ++ [name] <+: found.1 := (List.prefix_append _ [deeper]).trans hunder
      exact mem_walk_ne hname hbranch (heq ▸ hother)

/-! ## Other orders -/

/-- An entry that can be put in front of a forest. -/
inductive Item (ν α β : Type*) where
  | leaf (name : ν) (a : α)
  | branch (name : ν) (b : β) (below : Forest ν α β)

def Item.onto : Item ν α β → Forest ν α β → Forest ν α β
  | leaf name a, rest => .leaf name a rest
  | branch name b below, rest => .branch name b below rest

/-- The same entries, in another order at every place. -/
inductive Shuffled : Forest ν α β → Forest ν α β → Prop
  | nil : Shuffled nil nil
  | leaf (name : ν) (a : α) {f g : Forest ν α β} : Shuffled f g →
      Shuffled (leaf name a f) (leaf name a g)
  | branch (name : ν) (b : β) {below below' f g : Forest ν α β} : Shuffled below below' →
      Shuffled f g → Shuffled (branch name b below f) (branch name b below' g)
  | swap (x y : Item ν α β) (f : Forest ν α β) : Shuffled (x.onto (y.onto f)) (y.onto (x.onto f))
  | trans {f g h : Forest ν α β} : Shuffled f g → Shuffled g h → Shuffled f h

theorem Shuffled.open_iff {opens : β → Bool} {f g : Forest ν α β} (h : Shuffled f g) :
    f.Open opens ↔ g.Open opens := by
  induction h with
  | nil => exact Iff.rfl
  | leaf name a _ ih => exact ih
  | branch name b _ _ ihBelow ihRest => exact and_congr_right' (and_congr ihBelow ihRest)
  | swap x y f =>
      cases x with
      | leaf name a => cases y <;> exact Iff.rfl
      | branch name b below =>
          cases y with
          | leaf name' a => exact Iff.rfl
          | branch name' b' below' =>
              simp only [Item.onto, Open]
              tauto
  | trans _ _ ih ih' => exact ih.trans ih'

/-- What an entry contributes to a walk. -/
def Item.walk (root : List ν) : Item ν α β → List (Found ν α β)
  | leaf name a => [(root ++ [name], .inl a)]
  | branch name b below => (root ++ [name], .inr b) :: below.walk (root ++ [name])

theorem walk_onto (root : List ν) (x : Item ν α β) (f : Forest ν α β) :
    (x.onto f).walk root = x.walk root ++ f.walk root := by
  cases x with
  | leaf name a => rfl
  | branch name b below => rfl

/-- A walk in another order comes to the same entries. -/
theorem Shuffled.walk {f g : Forest ν α β} (h : Shuffled f g) (root : List ν) :
    (f.walk root).Perm (g.walk root) := by
  induction h generalizing root with
  | nil => exact .refl _
  | leaf name a _ ih => exact (ih root).cons _
  | branch name b _ _ ihBelow ihRest =>
      exact ((ihBelow (root ++ [name])).append (ihRest root)).cons _
  | swap x y f =>
      rw [walk_onto, walk_onto, walk_onto, walk_onto, ← List.append_assoc, ← List.append_assoc]
      exact List.perm_append_comm.append_right _
  | trans _ _ ih ih' => exact (ih root).trans (ih' root)

end Forest

end JiuwenCore
