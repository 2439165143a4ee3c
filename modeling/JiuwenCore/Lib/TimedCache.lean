import JiuwenCore.Lib.OrderedMap

/-!
# A cache with times

An entry is answered until it expires, and taken out when it is found expired. What is true
of every value that is stored is true of every value that is answered.
-/

namespace JiuwenCore.TimedCache

universe u v

structure Entry (ν : Type v) where
  value : ν
  expiresAt : Int

abbrev Cache (κ : Type u) (ν : Type v) [LinearOrder κ] := OrderedMap κ (Entry ν)

variable {κ : Type u} {ν : Type v} [LinearOrder κ]

/-- The value of a key at a time, if it has one that has not expired. -/
def live (cache : Cache κ ν) (key : κ) (now : Int) : Option ν :=
  (cache.get? key).bind fun entry => if now < entry.expiresAt then some entry.value else none

/-- The value of a key, and the cache without it where it has expired. -/
def lookup (cache : Cache κ ν) (key : κ) (now : Int) : Option ν × Cache κ ν :=
  match cache.get? key with
  | none => (none, cache)
  | some entry => if now < entry.expiresAt then (some entry.value, cache) else (none, cache.erase key)

def store (cache : Cache κ ν) (key : κ) (value : ν) (now ttl : Int) : Cache κ ν :=
  cache.insert key ⟨value, now + ttl⟩

/-- Every entry is what its key wants. -/
def Holds (cache : Cache κ ν) (P : κ → ν → Prop) : Prop :=
  ∀ key entry, cache.get? key = some entry → P key entry.value

variable {cache : Cache κ ν} {P : κ → ν → Prop}

theorem lookup_fst (cache : Cache κ ν) (key : κ) (now : Int) :
    (lookup cache key now).1 = live cache key now := by
  unfold lookup live
  cases cache.get? key with
  | none => rfl
  | some entry =>
      simp only [Option.bind_some]
      split <;> rfl

theorem live_empty (key : κ) (now : Int) : live (OrderedMap.empty : Cache κ ν) key now = none := rfl

theorem holds_empty : Holds (OrderedMap.empty : Cache κ ν) P := by
  intro key entry h
  cases h

theorem Holds.live (h : Holds cache P) {key : κ} {now : Int} {value : ν}
    (hlive : live cache key now = some value) : P key value := by
  obtain ⟨entry, hentry, hvalue⟩ := Option.bind_eq_some_iff.mp hlive
  split at hvalue
  · cases hvalue
    exact h key entry hentry
  · cases hvalue

/-- A key that nothing is stored for is not found, and leaves the cache as it is. -/
theorem Holds.lookup_none (h : Holds cache P) {key : κ} (hkey : ∀ value, ¬ P key value)
    (now : Int) : TimedCache.lookup cache key now = (none, cache) := by
  have hnone : cache.get? key = none := by
    cases hentry : cache.get? key with
    | none => rfl
    | some entry => exact absurd (h key entry hentry) (hkey _)
  rw [TimedCache.lookup, hnone]

theorem Holds.lookup (h : Holds cache P) (key : κ) (now : Int) :
    Holds (lookup cache key now).2 P := by
  unfold TimedCache.lookup
  split
  · exact h
  · split
    · exact h
    · intro k entry hentry
      rw [OrderedMap.get?_erase] at hentry
      split at hentry
      · cases hentry
      · exact h k entry hentry

theorem Holds.store (h : Holds cache P) {key : κ} {value : ν} (hvalue : P key value)
    (now ttl : Int) : Holds (store cache key value now ttl) P := by
  intro k entry hentry
  rw [TimedCache.store, OrderedMap.get?_insert] at hentry
  split at hentry
  · rename_i hk
    cases hentry
    rw [hk]
    exact hvalue
  · exact h k entry hentry

end JiuwenCore.TimedCache
