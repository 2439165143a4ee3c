import Mathlib.Order.Lattice
import Mathlib.Data.List.Basic

/-!
# Ordered maps

A map with its entries in increasing order of the keys, such as `std::map`.
`update` is the access that creates a missing entry and then changes it.
-/

namespace JiuwenCore

universe u v

variable {κ : Type u} {ν : Type v} [LinearOrder κ]

/-- Entries in strictly increasing order of their keys. -/
structure OrderedMap (κ : Type u) (ν : Type v) [LinearOrder κ] where
  entries : List (κ × ν)
  sorted : (entries.map (·.1)).Pairwise (· < ·)

namespace OrderedMap

def empty : OrderedMap κ ν := ⟨[], List.Pairwise.nil⟩

def keys (m : OrderedMap κ ν) : List κ := m.entries.map (·.1)

/-- The value under `key` in a list of entries. -/
@[grind =] def find (key : κ) : List (κ × ν) → Option ν
  | [] => none
  | (k, v) :: rest => if k = key then some v else find key rest

def get? (m : OrderedMap κ ν) (key : κ) : Option ν := find key m.entries

/-- Changes the value under `key`, which starts as `init` when it is missing. -/
@[grind =] def updateEntries (key : κ) (init : ν) (f : ν → ν) : List (κ × ν) → List (κ × ν)
  | [] => [(key, f init)]
  | (k, v) :: rest =>
      if key < k then (key, f init) :: (k, v) :: rest
      else if k = key then (k, f v) :: rest
      else (k, v) :: updateEntries key init f rest

theorem mem_keys_updateEntries (key : κ) (init : ν) (f : ν → ν) (entries : List (κ × ν)) (k : κ) :
    k ∈ (updateEntries key init f entries).map (·.1) ↔ k = key ∨ k ∈ entries.map (·.1) := by
  induction entries with
  | nil => simp [updateEntries]
  | cons entry rest ih =>
      rcases entry with ⟨k', v⟩
      unfold updateEntries
      split_ifs with hlt heq
      · simp
      · subst heq
        simp
      · simp only [List.map_cons, List.mem_cons, ih]
        tauto

theorem mem_updateEntries {key : κ} {init : ν} {f : ν → ν} {entries : List (κ × ν)} {entry : κ × ν}
    (h : entry ∈ updateEntries key init f entries) :
    entry ∈ entries ∨ ∃ v, entry = (key, f v) := by
  induction entries with
  | nil => exact Or.inr ⟨init, List.mem_singleton.mp h⟩
  | cons first rest ih =>
      rcases first with ⟨k, v⟩
      unfold updateEntries at h
      split_ifs at h with hlt heq
      · rcases List.mem_cons.mp h with rfl | h
        · exact Or.inr ⟨init, rfl⟩
        · exact Or.inl h
      · rcases List.mem_cons.mp h with rfl | h
        · exact Or.inr ⟨v, by rw [heq]⟩
        · exact Or.inl (List.mem_cons_of_mem _ h)
      · rcases List.mem_cons.mp h with rfl | h
        · exact Or.inl List.mem_cons_self
        · exact (ih h).imp_left (List.mem_cons_of_mem _)

/-- A key behind all others is entered at the end. -/
theorem updateEntries_of_lt {key : κ} (init : ν) (f : ν → ν) {entries : List (κ × ν)}
    (h : ∀ k ∈ entries.map (·.1), k < key) :
    updateEntries key init f entries = entries ++ [(key, f init)] := by
  induction entries with
  | nil => rfl
  | cons entry rest ih =>
      rcases entry with ⟨k, v⟩
      rw [List.map_cons, List.forall_mem_cons] at h
      rw [updateEntries, if_neg (lt_asymm h.1), if_neg (ne_of_lt h.1), ih h.2, List.cons_append]

theorem updateEntries_sorted (key : κ) (init : ν) (f : ν → ν) (entries : List (κ × ν))
    (h : (entries.map (·.1)).Pairwise (· < ·)) :
    ((updateEntries key init f entries).map (·.1)).Pairwise (· < ·) := by
  induction entries with
  | nil => simp [updateEntries]
  | cons entry rest ih =>
      rcases entry with ⟨k, v⟩
      rw [List.map_cons, List.pairwise_cons] at h
      rcases h with ⟨hhead, htail⟩
      unfold updateEntries
      split_ifs with hlt heq
      · rw [List.map_cons, List.pairwise_cons]
        refine ⟨fun k' hk' => ?_, List.pairwise_cons.mpr ⟨hhead, htail⟩⟩
        rcases List.mem_cons.mp hk' with rfl | hk'
        · exact hlt
        · exact lt_trans hlt (hhead k' hk')
      · exact List.pairwise_cons.mpr ⟨hhead, htail⟩
      · rw [List.map_cons, List.pairwise_cons]
        refine ⟨fun k' hk' => ?_, ih htail⟩
        rcases (mem_keys_updateEntries key init f rest k').mp hk' with rfl | hk'
        · exact lt_of_le_of_ne (not_lt.mp hlt) heq
        · exact hhead k' hk'

def update (m : OrderedMap κ ν) (key : κ) (init : ν) (f : ν → ν) : OrderedMap κ ν :=
  ⟨updateEntries key init f m.entries, updateEntries_sorted key init f m.entries m.sorted⟩

theorem find_eq_none {key : κ} {entries : List (κ × ν)} (h : key ∉ entries.map (·.1)) :
    find key entries = none := by
  induction entries with
  | nil => rfl
  | cons entry rest ih =>
      rw [List.map_cons, List.mem_cons, not_or] at h
      rw [find, if_neg fun heq => h.1 heq.symm, ih h.2]

theorem find_updateEntries (key : κ) (init : ν) (f : ν → ν) (entries : List (κ × ν))
    (h : (entries.map (·.1)).Pairwise (· < ·)) (k : κ) :
    find k (updateEntries key init f entries) =
      if k = key then some (f ((find key entries).getD init)) else find k entries := by
  induction entries with
  | nil =>
      by_cases hk : k = key
      · simp [updateEntries, find, hk]
      · simp [updateEntries, find, hk, Ne.symm hk]
  | cons entry rest ih =>
      rcases entry with ⟨k', v⟩
      rw [List.map_cons, List.pairwise_cons] at h
      rcases h with ⟨hhead, htail⟩
      unfold updateEntries
      split
      · rename_i hlt
        have hmissing : find key ((k', v) :: rest) = none := by
          refine find_eq_none fun hmem => ?_
          rcases List.mem_cons.mp hmem with heq | hmem
          · exact absurd heq (ne_of_lt hlt)
          · exact absurd (hhead key hmem) (lt_asymm hlt)
        by_cases hk : k = key
        · rw [if_pos hk, hmissing, hk, find, if_pos rfl, Option.getD_none]
        · rw [if_neg hk, find, if_neg (Ne.symm hk)]
      · split
        · rename_i heq
          subst heq
          by_cases hk : k = k'
          · rw [if_pos hk, hk, find, if_pos rfl, find, if_pos rfl, Option.getD_some]
          · rw [if_neg hk, find, if_neg (Ne.symm hk), find, if_neg (Ne.symm hk)]
        · rename_i hne
          rw [find, ih htail, find, if_neg hne, find]
          by_cases hk : k' = k
          · rw [if_pos hk, if_pos hk, if_neg fun heq => hne (hk.trans heq)]
          · rw [if_neg hk, if_neg hk]

/-- The access changes the value under its key and no other. -/
theorem get?_update (m : OrderedMap κ ν) (key : κ) (init : ν) (f : ν → ν) (k : κ) :
    (m.update key init f).get? k =
      if k = key then some (f ((m.get? key).getD init)) else m.get? k :=
  find_updateEntries key init f m.entries m.sorted k

theorem mem_keys_update (m : OrderedMap κ ν) (key : κ) (init : ν) (f : ν → ν) (k : κ) :
    k ∈ (m.update key init f).keys ↔ k = key ∨ k ∈ m.keys :=
  mem_keys_updateEntries key init f m.entries k

theorem find_of_mem {entries : List (κ × ν)} (h : (entries.map (·.1)).Pairwise (· < ·))
    {entry : κ × ν} (hmem : entry ∈ entries) : find entry.1 entries = some entry.2 := by
  induction entries with
  | nil => simp at hmem
  | cons first rest ih =>
      rw [List.map_cons, List.pairwise_cons] at h
      rcases List.mem_cons.mp hmem with rfl | hmem
      · rw [find, if_pos rfl]
      · have hlt := h.1 entry.1 (List.mem_map_of_mem hmem)
        rw [find, if_neg (ne_of_lt hlt), ih h.2 hmem]

/-- The entries are the keys in order, each with the value under it. -/
theorem entries_eq (m : OrderedMap κ ν) (g : κ → ν)
    (hg : ∀ k ∈ m.keys, m.get? k = some (g k)) : m.entries = m.keys.map fun k => (k, g k) := by
  unfold keys
  rw [List.map_map]
  conv_lhs => rw [← List.map_id m.entries]
  refine List.map_congr_left fun entry hmem => ?_
  have hentry := find_of_mem m.sorted hmem
  have hkey := hg entry.1 (List.mem_map_of_mem hmem)
  rw [get?, hentry, Option.some.injEq] at hkey
  exact Prod.ext rfl hkey

/-! ## Entering and removing -/

theorem mem_of_find {key : κ} {v : ν} {entries : List (κ × ν)} (h : find key entries = some v) :
    (key, v) ∈ entries := by
  induction entries with
  | nil => cases h
  | cons entry rest ih =>
      rcases entry with ⟨k, v'⟩
      rw [find] at h
      split at h
      · rename_i hk
        cases h
        rw [hk]
        exact List.mem_cons_self
      · exact List.mem_cons_of_mem _ (ih h)

theorem mem_entries_iff (m : OrderedMap κ ν) (entry : κ × ν) :
    entry ∈ m.entries ↔ m.get? entry.1 = some entry.2 :=
  ⟨fun h => find_of_mem m.sorted h, fun h => mem_of_find h⟩

theorem mem_keys_iff (m : OrderedMap κ ν) (k : κ) : k ∈ m.keys ↔ (m.get? k).isSome := by
  rw [keys, List.mem_map, Option.isSome_iff_exists]
  constructor
  · rintro ⟨entry, hentry, rfl⟩
    exact ⟨entry.2, find_of_mem m.sorted hentry⟩
  · rintro ⟨v, hv⟩
    exact ⟨(k, v), mem_of_find hv, rfl⟩

theorem entries_nodup (m : OrderedMap κ ν) : m.entries.Nodup :=
  (List.pairwise_map.mp m.sorted).imp fun hlt heq => absurd (congrArg Prod.fst heq) (ne_of_lt hlt)

/-- Two maps with the same values under every key are the same. -/
theorem ext_get? {m m' : OrderedMap κ ν} (h : ∀ k, m.get? k = m'.get? k) : m = m' := by
  have hperm : m.entries.Perm m'.entries := by
    rw [List.perm_ext_iff_of_nodup m.entries_nodup m'.entries_nodup]
    intro entry
    rw [mem_entries_iff, mem_entries_iff, h]
  have hentries : m.entries = m'.entries :=
    hperm.eq_of_pairwise (fun _ _ _ _ hlt hgt => absurd hgt (lt_asymm hlt))
      (List.pairwise_map.mp m.sorted) (List.pairwise_map.mp m'.sorted)
  cases m
  cases m'
  cases hentries
  rfl

/-- `m[key] = v`. -/
def insert (m : OrderedMap κ ν) (key : κ) (v : ν) : OrderedMap κ ν := m.update key v fun _ => v

theorem get?_insert (m : OrderedMap κ ν) (key : κ) (v : ν) (k : κ) :
    (m.insert key v).get? k = if k = key then some v else m.get? k := by
  rw [insert, get?_update]

theorem insert_eq_self_iff (m : OrderedMap κ ν) (key : κ) (v : ν) :
    m.insert key v = m ↔ m.get? key = some v := by
  constructor
  · intro h
    rw [← h, get?_insert, if_pos rfl]
  · intro h
    apply ext_get?
    intro k
    rw [get?_insert]
    split
    · rename_i hk
      rw [hk, h]
    · rfl

def erase (m : OrderedMap κ ν) (key : κ) : OrderedMap κ ν where
  entries := m.entries.filter fun entry => entry.1 ≠ key
  sorted := m.sorted.sublist (List.filter_sublist.map _)

theorem get?_erase (m : OrderedMap κ ν) (key k : κ) :
    (m.erase key).get? k = if k = key then none else m.get? k := by
  unfold erase get?
  dsimp only
  induction m.entries with
  | nil => simp [find]
  | cons entry rest ih =>
      by_cases hentry : entry.1 = key
      · rw [List.filter_cons_of_neg (by simpa using hentry), ih, find]
        by_cases hk : k = key
        · rw [if_pos hk, if_pos hk]
        · rw [if_neg hk, if_neg hk, if_neg fun h => hk (h.symm.trans hentry)]
      · rw [List.filter_cons_of_pos (by simpa using hentry), find, find, ih]
        by_cases hk : entry.1 = k
        · rw [if_pos hk, if_neg fun h => hentry (hk.trans h), if_pos hk]
        · rw [if_neg hk, if_neg hk]

/-- The entries of the first map over those of the second. -/
def overlay (m under : OrderedMap κ ν) : OrderedMap κ ν :=
  m.entries.foldl (fun out entry => out.insert entry.1 entry.2) under

theorem get?_foldl_insert (entries : List (κ × ν)) (h : (entries.map (·.1)).Pairwise (· < ·))
    (out : OrderedMap κ ν) (k : κ) :
    (entries.foldl (fun out entry => out.insert entry.1 entry.2) out).get? k =
      (find k entries).or (out.get? k) := by
  induction entries generalizing out with
  | nil => rfl
  | cons entry rest ih =>
      rw [List.map_cons, List.pairwise_cons] at h
      rw [List.foldl_cons, ih h.2, get?_insert, find]
      by_cases hk : entry.1 = k
      · have hmissing : find k rest = none :=
          find_eq_none fun hmem => lt_irrefl k (hk ▸ h.1 k hmem)
        rw [hmissing, if_pos hk.symm, if_pos hk, Option.none_or, Option.some_or]
      · rw [if_neg (Ne.symm hk), if_neg hk]

theorem get?_overlay (m under : OrderedMap κ ν) (k : κ) :
    (m.overlay under).get? k = (m.get? k).or (under.get? k) :=
  get?_foldl_insert m.entries m.sorted under k

end OrderedMap

end JiuwenCore
