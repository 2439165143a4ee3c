import Mathlib.Data.List.Basic

/-!
# A counting gate

A gate lets parties in up to a limit, 0 meaning any number. A party that finds the gate
full waits on a condition variable: it sleeps until it wakes, notified or not, and then
tests again. The limit can be changed from outside, without a notification. A party may
also be lost inside, so that its place is never given back.
-/

namespace JiuwenCore

/-- Where a party is. A waiting one has `heard` when it was notified since the gate
became free. -/
inductive Station where
  | outside
  | testing
  | waiting (heard : Bool)
  | inside
  | lost
  deriving DecidableEq, Repr

def Station.hear (heard : Bool) : Station → Station
  | waiting _ => waiting heard
  | station => station

/-- On the way in, with the lock or asleep. -/
def Station.seeks : Station → Bool
  | testing => true
  | waiting _ => true
  | _ => false

@[simp] theorem Station.seeks_hear (heard : Bool) (station : Station) :
    (station.hear heard).seeks = station.seeks := by
  cases station <;> rfl

structure Gate where
  stations : List Station := []
  count : Nat := 0
  limit : Nat := 0

namespace Gate

/-- Another party could pass. -/
def Free (gate : Gate) : Prop := gate.limit = 0 ∨ gate.count < gate.limit

instance (gate : Gate) : Decidable gate.Free := inferInstanceAs (Decidable (_ ∨ _))

inductive Event where
  | join
  | test (i : Nat)
  | pass (i : Nat)
  | wait (i : Nat)
  | wake (i : Nat)
  | leave (i : Nat)
  | lose (i : Nat)
  | relimit (limit : Nat)
  | reset (limit : Nat)
  | stay

/-- A new limit; whoever waits when it frees the gate has not heard of it. -/
def relimit (limit : Nat) (gate : Gate) : Gate :=
  if Free { gate with limit := limit } ∧ ¬ gate.Free then
    { gate with limit := limit, stations := gate.stations.map (Station.hear false) }
  else { gate with limit := limit }

inductive Step (gate : Gate) : Event → Gate → Prop
  | join : Step gate .join { gate with stations := gate.stations ++ [.outside] }
  | test {i : Nat} (hi : gate.stations[i]? = some .outside) (hlimit : 0 < gate.limit) :
      Step gate (.test i) { gate with stations := gate.stations.set i .testing }
  | enter {i : Nat} (hi : gate.stations[i]? = some .outside) (hlimit : gate.limit = 0) :
      Step gate (.pass i)
        { gate with stations := gate.stations.set i .inside, count := gate.count + 1 }
  | pass {i : Nat} (hi : gate.stations[i]? = some .testing) (hroom : gate.count < gate.limit) :
      Step gate (.pass i)
        { gate with stations := gate.stations.set i .inside, count := gate.count + 1 }
  | wait {i : Nat} (hi : gate.stations[i]? = some .testing) (hfull : gate.limit ≤ gate.count) :
      Step gate (.wait i) { gate with stations := gate.stations.set i (.waiting false) }
  | wake {i : Nat} {heard : Bool} (hi : gate.stations[i]? = some (.waiting heard)) :
      Step gate (.wake i) { gate with stations := gate.stations.set i .testing }
  | leave {i : Nat} (hi : gate.stations[i]? = some .inside) :
      Step gate (.leave i)
        { gate with
          stations := (gate.stations.map (Station.hear true)).set i .outside
          count := gate.count - 1 }
  | lose {i : Nat} (hi : gate.stations[i]? = some .inside) :
      Step gate (.lose i) { gate with stations := gate.stations.set i .lost }
  | relimit (limit : Nat) : Step gate (.relimit limit) (gate.relimit limit)
  | reset (limit : Nat) : Step gate (.reset limit) { limit := limit }
  | stay : Step gate .stay gate

/-! ## The count -/

def isInside : Station → Bool
  | .inside => true
  | _ => false

def isLost : Station → Bool
  | .lost => true
  | _ => false

/-- Every place taken is that of a party inside or of one that was lost. -/
def Counted (gate : Gate) : Prop :=
  gate.count = gate.stations.countP isInside + gate.stations.countP isLost

theorem countP_set {p : Station → Bool} {stations : List Station} {i : Nat} {before : Station}
    (after : Station) (h : stations[i]? = some before) :
    (stations.set i after).countP p + (if p before then 1 else 0) =
      stations.countP p + if p after then 1 else 0 := by
  induction stations generalizing i with
  | nil => cases h
  | cons station stations ih =>
      cases i with
      | zero =>
          rw [List.getElem?_cons_zero, Option.some.injEq] at h
          rw [List.set_cons_zero, List.countP_cons, List.countP_cons, h]
          omega
      | succ i =>
          rw [List.getElem?_cons_succ] at h
          have hrest := ih h
          rw [List.set_cons_succ, List.countP_cons, List.countP_cons]
          omega

theorem countP_hear {p : Station → Bool} (heard : Bool) (stations : List Station)
    (hp : ∀ h, p (.waiting h) = false) :
    (stations.map (Station.hear heard)).countP p = stations.countP p := by
  rw [List.countP_map]
  refine List.countP_congr fun station _ => ?_
  cases station <;> simp [Station.hear, hp]

/-- A party that moves takes or gives a place. -/
theorem Counted.move {gate : Gate} {i : Nat} {before after : Station} {count : Nat}
    (hcount : gate.Counted) (h : gate.stations[i]? = some before)
    (hmove : count + ((if isInside before then 1 else 0) + if isLost before then 1 else 0) =
      gate.count + ((if isInside after then 1 else 0) + if isLost after then 1 else 0)) :
    Counted { gate with stations := gate.stations.set i after, count := count } := by
  have hin := countP_set (p := isInside) after h
  have hlost := countP_set (p := isLost) after h
  unfold Counted at hcount ⊢
  dsimp only
  omega

theorem Counted.hear {gate : Gate} (heard : Bool) (hcount : gate.Counted) :
    Counted { gate with stations := gate.stations.map (Station.hear heard) } := by
  unfold Counted at hcount ⊢
  rw [countP_hear heard _ fun _ => rfl, countP_hear heard _ fun _ => rfl]
  exact hcount

theorem getElem?_hear {stations : List Station} {i : Nat} {station : Station} (heard : Bool)
    (h : stations[i]? = some station) :
    (stations.map (Station.hear heard))[i]? = some (station.hear heard) := by
  rw [List.getElem?_map, h, Option.map_some]

theorem Step.counted {gate gate' : Gate} {e : Event} (h : Step gate e gate')
    (hcount : gate.Counted) : gate'.Counted := by
  cases h with
  | join => simpa [Counted, isInside, isLost] using hcount
  | test hi _ => exact hcount.move hi rfl
  | enter hi _ => exact hcount.move hi rfl
  | pass hi _ => exact hcount.move hi rfl
  | wait hi _ => exact hcount.move hi rfl
  | wake hi => exact hcount.move hi rfl
  | leave hi =>
      have hpos : 0 < gate.stations.countP isInside :=
        List.countP_pos_iff.mpr ⟨_, List.mem_of_getElem? hi, rfl⟩
      refine (hcount.hear true).move (getElem?_hear true hi) ?_
      unfold Counted at hcount
      simp only [Station.hear, isInside, isLost, if_true, Bool.false_eq_true, if_false]
      omega
  | lose hi => exact hcount.move hi rfl
  | relimit limit =>
      unfold Gate.relimit
      split
      · exact hcount.hear false
      · exact hcount
  | reset limit => rfl
  | stay => exact hcount

theorem countP_isLost_eq_zero (stations : List Station) :
    stations.countP isLost = 0 ↔ .lost ∉ stations := by
  rw [List.countP_eq_zero]
  constructor
  · exact fun h hmem => h _ hmem rfl
  · intro h station hmem
    cases station with
    | lost => exact absurd hmem h
    | _ => simp [isLost]

/-- The count is that of the parties inside as long as none is lost. -/
theorem Counted.count_eq_iff {gate : Gate} (h : gate.Counted) :
    gate.count = gate.stations.countP isInside ↔ .lost ∉ gate.stations := by
  rw [← countP_isLost_eq_zero]
  unfold Counted at h
  omega

theorem lost_not_mem_set {stations : List Station} {i : Nat} {after : Station}
    (h : .lost ∉ stations) (hafter : after ≠ .lost) : .lost ∉ stations.set i after := by
  intro hmem
  rcases List.mem_or_eq_of_mem_set hmem with hmem | heq
  · exact h hmem
  · exact hafter heq.symm

theorem lost_not_mem_hear {stations : List Station} (heard : Bool) (h : .lost ∉ stations) :
    .lost ∉ stations.map (Station.hear heard) := by
  intro hmem
  obtain ⟨station, hstation, heq⟩ := List.mem_map.mp hmem
  cases station with
  | lost => exact h hstation
  | _ => cases heq

theorem Step.none_lost {gate gate' : Gate} {e : Event} (h : Step gate e gate')
    (hkeeps : ∀ i, e ≠ .lose i) (hnone : .lost ∉ gate.stations) : .lost ∉ gate'.stations := by
  cases h with
  | join => simpa using hnone
  | test _ _ => exact lost_not_mem_set hnone nofun
  | enter _ _ => exact lost_not_mem_set hnone nofun
  | pass _ _ => exact lost_not_mem_set hnone nofun
  | wait _ _ => exact lost_not_mem_set hnone nofun
  | wake _ => exact lost_not_mem_set hnone nofun
  | leave _ => exact lost_not_mem_set (lost_not_mem_hear true hnone) nofun
  | lose _ => exact absurd rfl (hkeeps _)
  | relimit limit =>
      unfold Gate.relimit
      split
      · exact lost_not_mem_hear false hnone
      · exact hnone
  | reset limit => exact List.not_mem_nil
  | stay => exact hnone

/-! ## Waking up -/

/-- Nobody seeks to enter a gate without a limit, and while another party could pass,
whoever waits has been notified. -/
structure Awake (gate : Gate) : Prop where
  limited : ∀ station ∈ gate.stations, station.seeks → 0 < gate.limit
  notified : gate.Free → ∀ heard, .waiting heard ∈ gate.stations → heard = true

/-- A change of the limit that leaves nobody behind. Other events are of no concern. -/
def Gentle (gate : Gate) : Event → Prop
  | .relimit limit =>
      (limit = 0 → ∀ station ∈ gate.stations, station.seeks = false) ∧
      (gate.count < limit → ¬ gate.Free → ∀ heard, .waiting heard ∉ gate.stations)
  | _ => True

/-- What a party waits for comes true when the gate is free. -/
theorem Awake.passes {gate : Gate} (h : gate.Awake) (hfree : gate.Free) {heard : Bool}
    (hwaiting : .waiting heard ∈ gate.stations) : gate.count < gate.limit ∧ heard = true := by
  have hlimit := h.limited _ hwaiting rfl
  refine ⟨?_, h.notified hfree heard hwaiting⟩
  rcases hfree with hzero | hroom
  · omega
  · exact hroom

theorem Awake.move {gate : Gate} {i : Nat} {after : Station} {count : Nat} (h : gate.Awake)
    (hcount : gate.count ≤ count) (hlimit : after.seeks → 0 < gate.limit)
    (hfull : ∀ heard, after = .waiting heard → gate.limit ≤ count) :
    Awake { gate with stations := gate.stations.set i after, count := count } := by
  refine ⟨fun station hmem hseeks => ?_, fun hfree heard hmem => ?_⟩
  · rcases List.mem_or_eq_of_mem_set hmem with hmem | rfl
    · exact h.limited station hmem hseeks
    · exact hlimit hseeks
  · rcases List.mem_or_eq_of_mem_set hmem with hmem | rfl
    · refine h.notified ?_ heard hmem
      rcases hfree with hzero | hroom
      · exact Or.inl hzero
      · exact Or.inr (Nat.lt_of_le_of_lt hcount hroom)
    · have hpos := hlimit rfl
      have hle := hfull heard rfl
      rcases hfree with hzero | hroom
      · dsimp only at hzero
        omega
      · dsimp only at hroom
        omega

theorem heard_of_mem_hear {stations : List Station} {heard heard' : Bool}
    (h : .waiting heard' ∈ stations.map (Station.hear heard)) :
    heard' = heard ∧ ∃ before, .waiting before ∈ stations := by
  obtain ⟨station, hmem, hstation⟩ := List.mem_map.mp h
  cases station with
  | waiting before =>
      cases hstation
      exact ⟨rfl, before, hmem⟩
  | _ => cases hstation

theorem limited_hear {gate : Gate} (heard : Bool) (h : gate.Awake) :
    ∀ station ∈ gate.stations.map (Station.hear heard), station.seeks → 0 < gate.limit := by
  intro station hmem hseeks
  obtain ⟨before, hbefore, rfl⟩ := List.mem_map.mp hmem
  exact h.limited before hbefore (by rwa [Station.seeks_hear] at hseeks)

theorem Awake.relimit {gate : Gate} {limit : Nat} (h : gate.Awake)
    (hgentle : Gentle gate (.relimit limit)) : (gate.relimit limit).Awake := by
  obtain ⟨hzero, hraised⟩ := hgentle
  have hlimited : ∀ station ∈ gate.stations, station.seeks → 0 < limit := by
    intro station hmem hseeks
    refine Nat.pos_of_ne_zero fun hlimit => ?_
    rw [hzero hlimit station hmem] at hseeks
    cases hseeks
  unfold Gate.relimit
  split
  · rename_i hopened
    refine ⟨fun station hmem hseeks => ?_, fun _ heard hmem => ?_⟩
    · obtain ⟨before, hbefore, rfl⟩ := List.mem_map.mp hmem
      exact hlimited before hbefore (by rwa [Station.seeks_hear] at hseeks)
    · obtain ⟨_, before, hbefore⟩ := heard_of_mem_hear hmem
      have hpos := hlimited _ hbefore rfl
      rcases hopened.1 with hnone | hroom
      · dsimp only at hnone
        omega
      · exact absurd hbefore (hraised hroom hopened.2 before)
  · rename_i hsame
    refine ⟨hlimited, fun hfree heard hmem => ?_⟩
    exact h.notified (not_not.mp fun hnot => hsame ⟨hfree, hnot⟩) heard hmem

theorem Step.awake {gate gate' : Gate} {e : Event} (h : Step gate e gate')
    (hgentle : Gentle gate e) (hawake : gate.Awake) : gate'.Awake := by
  cases h with
  | join =>
      have hnew : ∀ station ∈ gate.stations ++ [.outside], station ∈ gate.stations ∨
          station = .outside := fun station hmem => by simpa using hmem
      refine ⟨fun station hmem hseeks => ?_, fun hfree heard hmem => ?_⟩
      · rcases hnew station hmem with hold | rfl
        · exact hawake.limited station hold hseeks
        · cases hseeks
      · rcases hnew _ hmem with hold | heq
        · exact hawake.notified hfree heard hold
        · cases heq
  | test hi hlimit => exact hawake.move (Nat.le_refl _) (fun _ => hlimit) (fun _ h => nomatch h)
  | enter hi hlimit => exact hawake.move (Nat.le_succ _) (fun h => nomatch h) (fun _ h => nomatch h)
  | pass hi hroom => exact hawake.move (Nat.le_succ _) (fun h => nomatch h) (fun _ h => nomatch h)
  | wait hi hfull =>
      have hlimit := hawake.limited _ (List.mem_of_getElem? hi) rfl
      exact hawake.move (Nat.le_refl _) (fun _ => hlimit) (fun _ _ => hfull)
  | wake hi =>
      have hlimit := hawake.limited _ (List.mem_of_getElem? hi) rfl
      exact hawake.move (Nat.le_refl _) (fun _ => hlimit) (fun _ h => nomatch h)
  | leave hi =>
      have hlimited := limited_hear true hawake
      refine ⟨fun station hmem hseeks => ?_, fun _ heard hmem => ?_⟩
      · rcases List.mem_or_eq_of_mem_set hmem with hmem | rfl
        · exact hlimited station hmem hseeks
        · cases hseeks
      · rcases List.mem_or_eq_of_mem_set hmem with hmem | heq
        · exact (heard_of_mem_hear hmem).1
        · cases heq
  | lose hi => exact hawake.move (Nat.le_refl _) (fun h => nomatch h) (fun _ h => nomatch h)
  | relimit limit => exact hawake.relimit hgentle
  | reset limit => exact ⟨fun _ h => (nomatch h), fun _ _ h => (nomatch h)⟩
  | stay => exact hawake

end Gate

end JiuwenCore
