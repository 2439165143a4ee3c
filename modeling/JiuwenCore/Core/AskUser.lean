import JiuwenCore.Text
import JiuwenCore.Lib.Runs
import Mathlib.Data.List.AList

/-!
# Asking the user

The dispatchers of the sessions, the slots of their pending requests and the index that
routes an answer to its session. A step is what a thread does under one lock; an answer
carries the number of the call that stored it, which the program does not keep.
-/

namespace JiuwenCore.AskUser

/-! ## The state -/

/-- An answer, and the `ProvideResponse` it comes from. -/
structure Answer where
  text : Str
  provide : Nat
  deriving DecidableEq, Repr

structure Slot where
  answer : Option Answer := none
  done : Bool := false
  deriving DecidableEq, Repr

/-- `AskUserDispatcher`: its slots, by their place on the heap. -/
structure Dispatcher where
  sessionId : Str
  slots : AList (fun _ : Str => Nat) := ∅

/-- How far `EmitAskUser` and the `WaitForResponse` behind it have come. -/
inductive AskPhase where
  | emitted
  | registered
  | waiting (slot : Nat)
  | concluded (result : Option Answer)
  | erased (result : Option Answer)
  | returned (result : Option Answer)
  deriving DecidableEq, Repr

/-- A request of the `ask_user` tool, with the slot that was found or made for it. -/
structure Ask where
  dispatcher : Nat
  requestId : Str
  slot : Nat
  phase : AskPhase
  deriving DecidableEq, Repr

/-- How far a `ProvideUserResponse` or the `ProvideResponse` in it has come. -/
inductive ProvidePhase where
  | arrived
  | routed (sessionId : Str)
  | dispatched (dispatcher : Nat)
  | found (slot : Nat)
  | returned (accepted : Bool)
  deriving DecidableEq, Repr

structure Provide where
  requestId : Str
  answer : Str
  phase : ProvidePhase
  deriving DecidableEq, Repr

structure State where
  slots : List Slot := []
  dispatchers : List Dispatcher := []
  /-- `sessions_`: the dispatcher of the entry of a session. -/
  sessions : AList (fun _ : Str => Nat) := ∅
  askRequestToSession : AList (fun _ : Str => Str) := ∅
  asks : List Ask := []
  provides : List Provide := []

namespace State

def setAsk (i : Nat) (phase : AskPhase) (st : State) : State :=
  { st with asks := st.asks.modify i fun a => { a with phase := phase } }

def setProvide (p : Nat) (phase : ProvidePhase) (st : State) : State :=
  { st with provides := st.provides.modify p fun c => { c with phase := phase } }

def modifyDispatcher (d : Nat) (f : Dispatcher → Dispatcher) (st : State) : State :=
  { st with dispatchers := st.dispatchers.modify d f }

/-- The slot of a request, `slots_.find` of a dispatcher. -/
def slotAt (st : State) (d : Nat) (requestId : Str) : Option Nat :=
  (st.dispatchers[d]?).bind fun dispatcher => dispatcher.slots.lookup requestId

/-- What has been stored in a slot. -/
def answerIn (st : State) (s : Nat) : Option Answer := (st.slots[s]?).bind (·.answer)

end State

/-! ## Asking -/

/-- `GetOrCreateSlot`. -/
def getOrCreateSlot (d : Nat) (requestId : Str) (st : State) : State × Nat :=
  match st.slotAt d requestId with
  | some s => (st, s)
  | none =>
      (State.modifyDispatcher d
        (fun dispatcher =>
          { dispatcher with slots := dispatcher.slots.insert requestId st.slots.length })
        { st with slots := st.slots ++ [{}] }, st.slots.length)

/-- `EmitAskUser` makes the slot. The request id is a new one, from `GenerateRequestId`. -/
def emit (d : Nat) (requestId : Str) (st : State) : Option State :=
  if d < st.dispatchers.length ∧ requestId ∉ st.asks.map (·.requestId) then
    let (st, s) := getOrCreateSlot d requestId st
    some { st with asks := st.asks ++ [⟨d, requestId, s, .emitted⟩] }
  else none

/-- `RegisterAskRequest`. -/
def register (i : Nat) (st : State) : Option State :=
  match st.asks[i]? with
  | some ⟨d, requestId, _, .emitted⟩ =>
      (st.dispatchers[d]?).map fun dispatcher =>
        State.setAsk i .registered { st with
          askRequestToSession := st.askRequestToSession.insert requestId dispatcher.sessionId }
  | _ => none

/-- `WaitForResponse` looks its slot up. -/
def wait (i : Nat) (st : State) : Option State :=
  match st.asks[i]? with
  | some ⟨d, requestId, _, .registered⟩ =>
      let (st, s) := getOrCreateSlot d requestId st
      some (st.setAsk i (.waiting s))
  | _ => none

/-- The wait is over, because of an answer or of the timeout: the predicate is tested a
last time in the lock of the slot. -/
def conclude (i : Nat) (st : State) : Option State :=
  match st.asks[i]? with
  | some ⟨_, _, _, .waiting s⟩ =>
      (st.slots[s]?).map fun slot =>
        st.setAsk i (.concluded (if slot.done then slot.answer else none))
  | _ => none

def eraseSlot (i : Nat) (st : State) : Option State :=
  match st.asks[i]? with
  | some ⟨d, requestId, _, .concluded result⟩ =>
      some ((st.modifyDispatcher d fun dispatcher =>
        { dispatcher with slots := dispatcher.slots.erase requestId }).setAsk i (.erased result))
  | _ => none

/-- `UnregisterAskRequest`, and the return. -/
def unregister (i : Nat) (st : State) : Option State :=
  match st.asks[i]? with
  | some ⟨_, requestId, _, .erased result⟩ =>
      some (State.setAsk i (.returned result)
        { st with askRequestToSession := st.askRequestToSession.erase requestId })
  | _ => none

/-! ## Answering -/

def call (requestId answer : Str) (phase : ProvidePhase) (st : State) : State :=
  { st with provides := st.provides ++ [⟨requestId, answer, phase⟩] }

/-- Step 1 of `ProvideUserResponse`. -/
def lookupIndex (p : Nat) (st : State) : Option State :=
  match st.provides[p]? with
  | some ⟨requestId, _, .arrived⟩ =>
      match st.askRequestToSession.lookup requestId with
      | some sessionId => some (st.setProvide p (.routed sessionId))
      | none => some (st.setProvide p (.returned false))
  | _ => none

/-- Step 2 of `ProvideUserResponse`. -/
def lookupSession (p : Nat) (st : State) : Option State :=
  match st.provides[p]? with
  | some ⟨_, _, .routed sessionId⟩ =>
      match st.sessions.lookup sessionId with
      | some d => some (st.setProvide p (.dispatched d))
      | none => some (st.setProvide p (.returned false))
  | _ => none

/-- `ProvideResponse` looks the slot up. -/
def lookupSlot (p : Nat) (st : State) : Option State :=
  match st.provides[p]? with
  | some ⟨requestId, _, .dispatched d⟩ =>
      match st.slotAt d requestId with
      | some s => some (st.setProvide p (.found s))
      | none => some (st.setProvide p (.returned false))
  | _ => none

/-- `ProvideResponse` fills the slot, whatever is in it, and returns. -/
def store (p : Nat) (st : State) : Option State :=
  match st.provides[p]? with
  | some ⟨_, answer, .found s⟩ =>
      some (State.setProvide p (.returned true)
        { st with slots := st.slots.modify s fun _ => { answer := some ⟨answer, p⟩, done := true } })
  | _ => none

/-! ## Steps -/

inductive Event where
  | openSession (sessionId : Str)
  | removeSession (sessionId : Str)
  | emit (d : Nat) (requestId : Str)
  | register (i : Nat)
  | wait (i : Nat)
  | conclude (i : Nat)
  | eraseSlot (i : Nat)
  | unregister (i : Nat)
  | provideUser (requestId answer : Str)
  | provide (d : Nat) (requestId answer : Str)
  | lookupIndex (p : Nat)
  | lookupSession (p : Nat)
  | lookupSlot (p : Nat)
  | store (p : Nat)
  deriving DecidableEq, Repr

def step (st : State) : Event → Option State
  | .openSession sessionId =>
      some { st with
        dispatchers := st.dispatchers ++ [{ sessionId := sessionId }]
        sessions := st.sessions.insert sessionId st.dispatchers.length }
  | .removeSession sessionId => some { st with sessions := st.sessions.erase sessionId }
  | .emit d requestId => emit d requestId st
  | .register i => register i st
  | .wait i => wait i st
  | .conclude i => conclude i st
  | .eraseSlot i => eraseSlot i st
  | .unregister i => unregister i st
  | .provideUser requestId answer => some (call requestId answer .arrived st)
  | .provide d requestId answer => some (call requestId answer (.dispatched d) st)
  | .lookupIndex p => lookupIndex p st
  | .lookupSession p => lookupSession p st
  | .lookupSlot p => lookupSlot p st
  | .store p => store p st

/-- The result of a wait that is over. -/
def AskPhase.result : AskPhase → Option (Option Answer)
  | emitted | registered | waiting _ => none
  | concluded result | erased result | returned result => some result

/-- The slot an answer is about to be stored in. -/
def ProvidePhase.slot : ProvidePhase → Option Nat
  | found s => some s
  | arrived | routed _ | dispatched _ | returned _ => none

/-- An answer is only stored in a slot that has none, and not behind the end of the wait for
its request. -/
def StoresInTime (st : State) : Event → Prop
  | .store p => ∀ c ∈ st.provides[p]?, (∀ s ∈ c.phase.slot, ∀ slot ∈ st.slots[s]?,
      slot.done = false) ∧ ∀ a ∈ st.asks, a.requestId = c.requestId → a.phase.result = none
  | _ => True

instance (st : State) (e : Event) : Decidable (StoresInTime st e) := by
  cases e <;> unfold StoresInTime <;> infer_instance

/-- A call has returned true exactly if the wait for its request returns its answer, and
one at most has. -/
structure Delivered (st : State) : Prop where
  accepted_iff : ∀ (p : Nat) (c : Provide) (accepted : Bool) (a : Ask) (result : Option Answer),
    st.provides[p]? = some c → c.phase = .returned accepted → a ∈ st.asks →
    a.phase = .returned result → c.requestId = a.requestId →
    (accepted = true ↔ result = some ⟨c.answer, p⟩)
  atMostOne : ∀ (p q : Nat) (c c' : Provide), st.provides[p]? = some c →
    st.provides[q]? = some c' → c.phase = .returned true → c'.phase = .returned true →
    c.requestId = c'.requestId → p = q

/-! ## The invariant -/

/-- The requests made so far, with their dispatchers and slots. -/
def State.requests (st : State) : List (Nat × Str × Nat) :=
  st.asks.map fun a => (a.dispatcher, a.requestId, a.slot)

/-- Every request has an id and a slot of its own, and its dispatcher knows it until the
wait is over. -/
structure Placed (st : State) : Prop where
  ids : (st.requests.map (·.2.1)).Nodup
  slots : (st.requests.map (·.2.2)).Nodup
  bounded : ∀ r ∈ st.requests, r.2.2 < st.slots.length
  known : ∀ d requestId s, st.slotAt d requestId = some s → (d, requestId, s) ∈ st.requests
  pending : ∀ a ∈ st.asks, a.phase = .emitted ∨ a.phase = .registered →
    st.slotAt a.dispatcher a.requestId = some a.slot
  waiting : ∀ a ∈ st.asks, ∀ s, a.phase = .waiting s → s = a.slot

/-- What is in a slot is what the accepted call of its request has stored, and what the
wait for it returns. -/
structure Answered (st : State) : Prop where
  done : ∀ slot ∈ st.slots, slot.done = slot.answer.isSome
  found : ∀ c ∈ st.provides, ∀ s ∈ c.phase.slot, ∃ d, (d, c.requestId, s) ∈ st.requests
  accepted : ∀ c ∈ st.provides, c.phase = .returned true →
    ∃ d s, (d, c.requestId, s) ∈ st.requests
  stored : ∀ d requestId s, (d, requestId, s) ∈ st.requests → ∀ text p,
    st.answerIn s = some ⟨text, p⟩ ↔ st.provides[p]? = some ⟨requestId, text, .returned true⟩
  results : ∀ a ∈ st.asks, ∀ result ∈ a.phase.result, result = st.answerIn a.slot

/-! ## Frames -/

/-- What holds of all elements still holds of them when one is changed. -/
theorem forall_mem_modify {α : Type} {l : List α} {i : Nat} {f : α → α} {motive : α → Prop}
    (h : ∀ x ∈ l, motive x) (hf : ∀ x, l[i]? = some x → motive (f x)) :
    ∀ x ∈ l.modify i f, motive x := by
  intro x hx
  obtain ⟨j, hj⟩ := List.mem_iff_getElem?.mp hx
  rw [List.getElem?_modify] at hj
  obtain ⟨y, hy, hxy⟩ := Option.map_eq_some_iff.mp hj
  by_cases hij : i = j
  · subst hij
    rw [if_pos rfl] at hxy
    exact hxy ▸ hf y hy
  · rw [if_neg hij] at hxy
    exact hxy ▸ h y (List.mem_of_getElem? hy)

variable {st st' : State}

section

variable (i p d : Nat) (st)

@[simp] theorem requests_setAsk (phase : AskPhase) :
    (st.setAsk i phase).requests = st.requests := by
  refine List.ext_getElem? fun j => ?_
  simp only [State.requests, State.setAsk, List.getElem?_map, List.getElem?_modify]
  cases st.asks[j]? with
  | none => rfl
  | some a => by_cases hij : i = j <;> simp [hij]

theorem getElem?_setProvide (phase : ProvidePhase) (q : Nat) :
    (st.setProvide p phase).provides[q]? =
      (st.provides[q]?).map fun c => if p = q then { c with phase := phase } else c := by
  rw [State.setProvide, List.getElem?_modify]
  refine congrArg (fun f => Option.map f st.provides[q]?) (funext fun c => ?_)
  by_cases hpq : p = q <;> simp [hpq]

theorem slotAt_modifyDispatcher (f : Dispatcher → Dispatcher) (d' : Nat) (requestId : Str) :
    (st.modifyDispatcher d f).slotAt d' requestId = (st.dispatchers[d']?).bind fun dispatcher =>
      (if d = d' then f dispatcher else dispatcher).slots.lookup requestId := by
  rw [State.slotAt, State.modifyDispatcher, List.getElem?_modify]
  cases st.dispatchers[d']? with
  | none => rfl
  | some dispatcher => by_cases h : d = d' <;> simp [h]

end

theorem mem_requests {a : Ask} (h : a ∈ st.asks) :
    (a.dispatcher, a.requestId, a.slot) ∈ st.requests :=
  List.mem_map.mpr ⟨a, h, rfl⟩

theorem Placed.eq_of_id (h : Placed st) {a b : Ask} (ha : a ∈ st.asks) (hb : b ∈ st.asks)
    (hid : a.requestId = b.requestId) : a = b := by
  have hnodup : (st.asks.map (·.requestId)).Nodup := by
    have hids := h.ids
    rwa [State.requests, List.map_map] at hids
  exact List.inj_on_of_nodup_map hnodup ha hb hid

theorem Placed.slot_of_id (h : Placed st) {r r' : Nat × Str × Nat} (hr : r ∈ st.requests)
    (hr' : r' ∈ st.requests) (hid : r.2.1 = r'.2.1) : r = r' :=
  List.inj_on_of_nodup_map h.ids hr hr' hid

theorem Placed.id_of_slot (h : Placed st) {r r' : Nat × Str × Nat} (hr : r ∈ st.requests)
    (hr' : r' ∈ st.requests) (hslot : r.2.2 = r'.2.2) : r = r' :=
  List.inj_on_of_nodup_map h.slots hr hr' hslot

/-! ## The property -/

theorem Answered.delivered (h : Answered st) : Delivered st where
  accepted_iff := by
    rintro p ⟨requestId, answer, phase⟩ accepted a result hc rfl ha hphase hid
    have hresult : result = st.answerIn a.slot := h.results a ha result (by rw [hphase]; rfl)
    have hstored := h.stored _ _ _ (mem_requests ha) answer p
    rw [hresult, hstored, hc, ← hid]
    cases accepted <;> simp
  atMostOne := by
    rintro p q ⟨requestId, answer, phase⟩ ⟨requestId', answer', phase'⟩ hc hc' rfl rfl hid
    obtain ⟨d, s, hr⟩ := h.accepted _ (List.mem_of_getElem? hc) rfl
    obtain rfl : requestId = requestId' := hid
    have hfirst := (h.stored d _ s hr answer p).mpr hc
    have hsecond := (h.stored d _ s hr answer' q).mpr hc'
    rw [hfirst] at hsecond
    exact congrArg Answer.provide (Option.some.inj hsecond)

/-! ## Changing a phase -/

theorem Placed.setAsk (h : Placed st) {i : Nat} {a : Ask} (ha : st.asks[i]? = some a)
    {phase : AskPhase}
    (hpending : phase = .emitted ∨ phase = .registered →
      st.slotAt a.dispatcher a.requestId = some a.slot)
    (hwaiting : ∀ s, phase = .waiting s → s = a.slot) : Placed (st.setAsk i phase) where
  ids := by rw [requests_setAsk]; exact h.ids
  slots := by rw [requests_setAsk]; exact h.slots
  bounded := by rw [requests_setAsk]; exact h.bounded
  known := by rw [requests_setAsk]; exact h.known
  pending := forall_mem_modify h.pending fun b hb => by
    obtain rfl : a = b := Option.some.inj (ha.symm.trans hb)
    exact hpending
  waiting := forall_mem_modify h.waiting fun b hb => by
    obtain rfl : a = b := Option.some.inj (ha.symm.trans hb)
    exact hwaiting

theorem Answered.setAsk (h : Answered st) {i : Nat} {a : Ask} (ha : st.asks[i]? = some a)
    {phase : AskPhase} (hresult : ∀ result ∈ phase.result, result = st.answerIn a.slot) :
    Answered (st.setAsk i phase) where
  done := h.done
  found := by rw [requests_setAsk]; exact h.found
  accepted := by rw [requests_setAsk]; exact h.accepted
  stored := by rw [requests_setAsk]; exact h.stored
  results := forall_mem_modify h.results fun b hb => by
    obtain rfl : a = b := Option.some.inj (ha.symm.trans hb)
    exact hresult

/-- A call that does not accept its answer changes nothing for the others. -/
theorem Answered.setProvide (h : Answered st) {p : Nat} {c : Provide}
    (hc : st.provides[p]? = some c) (hbefore : c.phase ≠ .returned true) {phase : ProvidePhase}
    (hafter : phase ≠ .returned true)
    (hfound : ∀ s ∈ phase.slot, ∃ d, (d, c.requestId, s) ∈ st.requests) :
    Answered (st.setProvide p phase) where
  done := h.done
  found := forall_mem_modify h.found fun c' hc' => by
    obtain rfl : c = c' := Option.some.inj (hc.symm.trans hc')
    exact hfound
  accepted := forall_mem_modify h.accepted fun c' _ heq => absurd heq hafter
  stored := by
    intro d requestId s hr text q
    refine (h.stored d requestId s hr text q).trans ?_
    rw [getElem?_setProvide]
    by_cases hpq : p = q
    · subst hpq
      rw [hc, Option.map_some, if_pos rfl]
      constructor
      · intro heq
        exact absurd (congrArg Provide.phase (Option.some.inj heq)) hbefore
      · intro heq
        exact absurd (congrArg Provide.phase (Option.some.inj heq)) hafter
    · simp only [hpq, if_false, Option.map_id']
  results := h.results

theorem Answered.call (h : Answered st) (requestId answer : Str) {phase : ProvidePhase}
    (hphase : phase ≠ .returned true) (hslot : phase.slot = none) :
    Answered (AskUser.call requestId answer phase st) where
  done := h.done
  found := List.forall_mem_append.mpr ⟨h.found, List.forall_mem_singleton.mpr fun s hs => by
    rw [hslot] at hs
    cases hs⟩
  accepted := List.forall_mem_append.mpr ⟨h.accepted, List.forall_mem_singleton.mpr fun heq =>
    absurd heq hphase⟩
  stored := by
    intro d id s hr text q
    refine (h.stored d id s hr text q).trans ?_
    simp only [AskUser.call, List.getElem?_append]
    split
    · rfl
    · rename_i hlength
      rw [List.getElem?_eq_none (Nat.le_of_not_lt hlength)]
      refine iff_of_false nofun fun heq => ?_
      have hlast := List.mem_singleton.mp (List.mem_of_getElem? heq)
      exact hphase (congrArg Provide.phase hlast).symm
  results := h.results

/-! ## Asking keeps the invariant -/

theorem slotAt_new (h : Placed st) {requestId : Str}
    (hnew : requestId ∉ st.asks.map (·.requestId)) (d : Nat) : st.slotAt d requestId = none := by
  cases hslot : st.slotAt d requestId with
  | none => rfl
  | some s =>
      obtain ⟨a, ha, heq⟩ := List.mem_map.mp (h.known d requestId s hslot)
      obtain ⟨_, rfl, _⟩ := Prod.mk.injEq .. ▸ heq
      exact absurd (List.mem_map_of_mem ha) hnew

/-- The slot of a new request. -/
theorem emit_eq (h : Placed st) {d : Nat} {requestId : Str}
    (hemit : emit d requestId st = some st') :
    d < st.dispatchers.length ∧ requestId ∉ st.asks.map (·.requestId) ∧
      st' = { st with
        slots := st.slots ++ [{}]
        dispatchers := st.dispatchers.modify d fun dispatcher =>
          { dispatcher with slots := dispatcher.slots.insert requestId st.slots.length }
        asks := st.asks ++ [⟨d, requestId, st.slots.length, .emitted⟩] } := by
  obtain ⟨⟨hd, hnew⟩, hemit⟩ := Option.ite_none_right_eq_some.mp hemit
  rw [getOrCreateSlot, slotAt_new h hnew] at hemit
  exact ⟨hd, hnew, (Option.some.inj hemit).symm⟩

theorem slotAt_insert {d : Nat} (hd : d < st.dispatchers.length) (requestId : Str) (s d' : Nat)
    (id : Str) :
    (st.modifyDispatcher d fun dispatcher =>
        { dispatcher with slots := dispatcher.slots.insert requestId s }).slotAt d' id =
      if d = d' ∧ requestId = id then some s else st.slotAt d' id := by
  rw [slotAt_modifyDispatcher]
  by_cases hsame : d = d'
  · subst hsame
    rw [List.getElem?_eq_getElem hd]
    by_cases hid : requestId = id
    · subst hid
      simp
    · simp [hid, Ne.symm hid, State.slotAt, List.getElem?_eq_getElem hd]
  · simp [hsame, State.slotAt]

theorem Placed.emit (h : Placed st) {d : Nat} {requestId : Str}
    (hemit : AskUser.emit d requestId st = some st') : Placed st' := by
  obtain ⟨hd, hnew, rfl⟩ := emit_eq h hemit
  have hids : requestId ∉ st.requests.map (·.2.1) := by
    rw [State.requests, List.map_map]
    exact hnew
  have hslot : ∀ d' id, State.slotAt { st with
      slots := st.slots ++ [{}]
      dispatchers := st.dispatchers.modify d fun dispatcher =>
        { dispatcher with slots := dispatcher.slots.insert requestId st.slots.length }
      asks := st.asks ++ [⟨d, requestId, st.slots.length, .emitted⟩] } d' id =
      if d = d' ∧ requestId = id then some st.slots.length else st.slotAt d' id :=
    slotAt_insert hd requestId st.slots.length
  refine ⟨?_, ?_, ?_, ?_, ?_, ?_⟩
  · simp only [State.requests, List.map_append, List.map_cons, List.map_nil]
    refine List.nodup_append.mpr ⟨h.ids, List.nodup_singleton _, fun id hid id' hid' heq => ?_⟩
    rw [List.mem_singleton.mp hid'] at heq
    exact hids (heq ▸ hid)
  · simp only [State.requests, List.map_append, List.map_cons, List.map_nil]
    refine List.nodup_append.mpr ⟨h.slots, List.nodup_singleton _, fun s hs s' hs' heq => ?_⟩
    rw [List.mem_singleton.mp hs'] at heq
    obtain ⟨r, hr, hrs⟩ := List.mem_map.mp hs
    have hlt := h.bounded r hr
    rw [hrs, heq] at hlt
    exact absurd hlt (Nat.lt_irrefl _)
  · simp only [State.requests, List.map_append, List.forall_mem_append, List.length_append,
      List.map_cons, List.map_nil, List.forall_mem_singleton, List.length_singleton]
    exact ⟨fun r hr => Nat.lt_succ_of_lt (h.bounded r hr), Nat.lt_succ_self _⟩
  · intro d' id s hs
    rw [hslot] at hs
    simp only [State.requests, List.map_append, List.mem_append, List.map_cons, List.map_nil,
      List.mem_singleton]
    split at hs
    · rename_i hsame
      cases hs
      exact Or.inr (by rw [hsame.1, hsame.2])
    · exact Or.inl (h.known d' id s hs)
  · refine List.forall_mem_append.mpr ⟨fun a ha hphase => ?_,
      List.forall_mem_singleton.mpr fun _ => ?_⟩
    · have hother : ¬ (d = a.dispatcher ∧ requestId = a.requestId) :=
        fun hsame => hnew (hsame.2 ▸ List.mem_map_of_mem ha)
      rw [hslot, if_neg hother]
      exact h.pending a ha hphase
    · rw [hslot]
      exact if_pos ⟨rfl, rfl⟩
  · simp only [List.forall_mem_append, List.forall_mem_singleton]
    exact ⟨h.waiting, nofun⟩

theorem Answered.emit (h : Answered st) (hplaced : Placed st) {d : Nat} {requestId : Str}
    (hemit : AskUser.emit d requestId st = some st') : Answered st' := by
  obtain ⟨_, hnew, rfl⟩ := emit_eq hplaced hemit
  have hold : ∀ s, s < st.slots.length →
      (((st.slots ++ [({} : Slot)])[s]?).bind fun slot => slot.answer) = st.answerIn s := by
    intro s hs
    rw [List.getElem?_append_left hs]
    rfl
  have hfresh : (((st.slots ++ [({} : Slot)])[st.slots.length]?).bind fun slot => slot.answer) =
      none := by
    rw [List.getElem?_concat_length]
    rfl
  refine ⟨?_, ?_, ?_, ?_, ?_⟩
  · simp only [List.forall_mem_append, List.forall_mem_singleton]
    exact ⟨h.done, rfl⟩
  · intro c hc s hs
    obtain ⟨d', hr⟩ := h.found c hc s hs
    exact ⟨d', by
      simp only [State.requests, List.map_append, List.mem_append]
      exact Or.inl hr⟩
  · intro c hc hphase
    obtain ⟨d', s, hr⟩ := h.accepted c hc hphase
    exact ⟨d', s, by
      simp only [State.requests, List.map_append, List.mem_append]
      exact Or.inl hr⟩
  · simp only [State.requests, List.map_append, List.mem_append, List.map_cons, List.map_nil,
      List.mem_singleton]
    rintro d' id s (hr | hr) text q
    · rw [← h.stored d' id s hr text q, ← hold s (hplaced.bounded _ hr)]
      rfl
    · obtain ⟨rfl, rfl, rfl⟩ := Prod.mk.injEq .. ▸ hr
      rw [State.answerIn, hfresh]
      refine iff_of_false nofun fun heq => ?_
      obtain ⟨d'', s', hr'⟩ := h.accepted _ (List.mem_of_getElem? heq) rfl
      obtain ⟨a, ha, heq'⟩ := List.mem_map.mp hr'
      exact hnew (List.mem_map.mpr ⟨a, ha, (Prod.mk.inj (Prod.mk.inj heq').2).1⟩)
  · simp only [List.forall_mem_append, List.forall_mem_singleton]
    refine ⟨fun a ha result hresult => ?_, nofun⟩
    rw [h.results a ha result hresult]
    exact (hold a.slot (hplaced.bounded _ (mem_requests ha))).symm

/-- The wait finds the slot of its request. -/
theorem wait_eq (h : Placed st) {i : Nat} (hwait : AskUser.wait i st = some st') :
    ∃ a, st.asks[i]? = some a ∧ a.phase = .registered ∧
      st' = st.setAsk i (.waiting a.slot) := by
  unfold AskUser.wait at hwait
  split at hwait
  · rename_i d requestId s ha
    have hslot := h.pending _ (List.mem_of_getElem? ha) (Or.inr rfl)
    rw [getOrCreateSlot, hslot] at hwait
    exact ⟨_, ha, rfl, (Option.some.inj hwait).symm⟩
  · cases hwait

theorem conclude_eq (h : Placed st) (hanswered : Answered st) {i : Nat}
    (hconclude : AskUser.conclude i st = some st') :
    ∃ a, st.asks[i]? = some a ∧ st' = st.setAsk i (.concluded (st.answerIn a.slot)) := by
  unfold AskUser.conclude at hconclude
  split at hconclude
  · rename_i d requestId slot s ha
    obtain rfl : s = slot := h.waiting _ (List.mem_of_getElem? ha) s rfl
    obtain ⟨found, hfound, rfl⟩ := Option.map_eq_some_iff.mp hconclude
    refine ⟨_, ha, congrArg (fun result => st.setAsk i (.concluded result)) ?_⟩
    have hdone := hanswered.done found (List.mem_of_getElem? hfound)
    rw [State.answerIn, hfound, hdone]
    cases hanswer : found.answer <;> simp [hanswer]
  · cases hconclude

theorem slotAt_erase (d : Nat) (requestId : Str) (d' : Nat) (id : Str) :
    (st.modifyDispatcher d fun dispatcher =>
        { dispatcher with slots := dispatcher.slots.erase requestId }).slotAt d' id =
      if d = d' ∧ requestId = id then none else st.slotAt d' id := by
  rw [slotAt_modifyDispatcher]
  by_cases hsame : d = d'
  · subst hsame
    by_cases hid : requestId = id
    · subst hid
      cases st.dispatchers[d]? <;> simp
    · simp [hid, Ne.symm hid, State.slotAt]
  · simp [hsame, State.slotAt]

theorem eraseSlot_eq {i : Nat} (herase : AskUser.eraseSlot i st = some st') :
    ∃ a result, st.asks[i]? = some a ∧ a.phase = .concluded result ∧
      st' = (st.modifyDispatcher a.dispatcher fun dispatcher =>
        { dispatcher with slots := dispatcher.slots.erase a.requestId }).setAsk i
          (.erased result) := by
  unfold AskUser.eraseSlot at herase
  split at herase
  · rename_i d requestId slot result ha
    exact ⟨_, result, ha, rfl, (Option.some.inj herase).symm⟩
  · cases herase

/-- The map forgets a request whose wait is over. -/
theorem Placed.eraseSlot (h : Placed st) {a : Ask} (ha : a ∈ st.asks)
    (hphase : ¬ (a.phase = .emitted ∨ a.phase = .registered)) :
    Placed (st.modifyDispatcher a.dispatcher fun dispatcher =>
      { dispatcher with slots := dispatcher.slots.erase a.requestId }) where
  ids := h.ids
  slots := h.slots
  bounded := h.bounded
  known := by
    intro d id s hs
    rw [slotAt_erase] at hs
    split at hs
    · cases hs
    · exact h.known d id s hs
  pending := by
    intro b hb hbphase
    have hother : ¬ (a.dispatcher = b.dispatcher ∧ a.requestId = b.requestId) := by
      rintro ⟨_, hid⟩
      exact hphase (h.eq_of_id ha hb hid ▸ hbphase)
    rw [slotAt_erase, if_neg hother]
    exact h.pending b hb hbphase
  waiting := h.waiting

theorem unregister_eq {i : Nat} (hunregister : AskUser.unregister i st = some st') :
    ∃ a result index, st.asks[i]? = some a ∧ a.phase = .erased result ∧
      st' = State.setAsk i (.returned result) { st with askRequestToSession := index } := by
  unfold AskUser.unregister at hunregister
  split at hunregister
  · rename_i d requestId slot result ha
    exact ⟨_, result, _, ha, rfl, (Option.some.inj hunregister).symm⟩
  · cases hunregister

theorem register_eq {i : Nat} (hregister : AskUser.register i st = some st') :
    ∃ a index, st.asks[i]? = some a ∧ a.phase = .emitted ∧
      st' = State.setAsk i .registered { st with askRequestToSession := index } := by
  unfold AskUser.register at hregister
  split at hregister
  · rename_i d requestId slot ha
    obtain ⟨dispatcher, _, rfl⟩ := Option.map_eq_some_iff.mp hregister
    exact ⟨_, _, ha, rfl, rfl⟩
  · cases hregister

/-! ## Answering keeps the invariant -/

theorem answerIn_store (p s : Nat) (answer : Answer) (s' : Nat) (hs : s < st.slots.length) :
    State.answerIn (State.setProvide p (.returned true)
      { st with slots := st.slots.modify s fun _ => { answer := some answer, done := true } }) s' =
      if s = s' then some answer else st.answerIn s' := by
  rw [State.answerIn, State.setProvide, List.getElem?_modify]
  by_cases h : s = s'
  · subst h
    rw [List.getElem?_eq_getElem hs]
    simp
  · simp [h, State.answerIn]

theorem store_eq {p : Nat} (hstore : AskUser.store p st = some st') :
    ∃ requestId answer s, st.provides[p]? = some ⟨requestId, answer, .found s⟩ ∧
      st' = State.setProvide p (.returned true) { st with
        slots := st.slots.modify s fun _ => { answer := some ⟨answer, p⟩, done := true } } := by
  unfold AskUser.store at hstore
  split at hstore
  · rename_i requestId answer s hc
    exact ⟨requestId, answer, s, hc, (Option.some.inj hstore).symm⟩
  · cases hstore

/-- A slot that is not done has no answer. -/
theorem Answered.answerIn_of_waiting (h : Answered st) {s : Nat} (hs : s < st.slots.length)
    (hwaits : st.slots[s].done = false) : st.answerIn s = none := by
  have hslot := List.getElem?_eq_getElem hs
  have hdone := h.done _ (List.mem_of_getElem? hslot)
  rw [hwaits] at hdone
  rw [State.answerIn, hslot, Option.bind_some]
  exact Option.isNone_iff_eq_none.mp (Option.isSome_eq_false_iff.mp hdone.symm)

theorem Answered.store (h : Answered st) (hplaced : Placed st) {p : Nat}
    (hok : StoresInTime st (.store p)) (hstore : AskUser.store p st = some st') :
    Answered st' := by
  obtain ⟨requestId, answer, s, hc, rfl⟩ := store_eq hstore
  obtain ⟨hempty, hwaits⟩ := hok _ hc
  obtain ⟨d, hr⟩ := h.found _ (List.mem_of_getElem? hc) s rfl
  have hs : s < st.slots.length := hplaced.bounded _ hr
  have hnone : st.answerIn s = none :=
    h.answerIn_of_waiting hs (hempty s rfl _ (List.getElem?_eq_getElem hs))
  refine ⟨?_, ?_, ?_, ?_, ?_⟩
  · exact forall_mem_modify h.done fun _ _ => rfl
  · exact forall_mem_modify h.found fun _ _ => nofun
  · refine forall_mem_modify h.accepted fun c hc' _ => ⟨d, s, ?_⟩
    obtain rfl := Option.some.inj (hc.symm.trans hc')
    exact hr
  · intro d' id s' hr' text q
    have hold := h.stored d' id s' hr' text q
    rw [answerIn_store p s _ s' hs, getElem?_setProvide]
    by_cases hslot : s = s'
    · -- The slot is the one of the request, which had no answer yet.
      have hid : requestId = id :=
        congrArg (fun r => r.2.1) (hplaced.id_of_slot hr hr' hslot)
      subst hslot hid
      rw [if_pos rfl]
      by_cases hpq : p = q
      · subst hpq
        simp [hc]
      · rw [hnone] at hold
        simp only [hpq, if_false, Option.map_id', ← hold]
        simp [hpq]
    · have hid : requestId ≠ id := fun hid =>
        hslot (congrArg (fun r => r.2.2) (hplaced.slot_of_id hr hr' hid))
      rw [if_neg hslot, hold]
      by_cases hpq : p = q
      · subst hpq
        simp [hc, hid]
      · simp [hpq]
  · intro a ha result hresult
    have hother : s ≠ a.slot := by
      intro hslot
      have hid : requestId = a.requestId :=
        congrArg (fun r => r.2.1) (hplaced.id_of_slot hr (mem_requests ha) hslot)
      rw [hwaits a ha hid.symm] at hresult
      cases hresult
    rw [answerIn_store p s _ a.slot hs, if_neg hother]
    exact h.results a ha result hresult

/-! ## Runs -/

structure Kept (st : State) : Prop where
  placed : Placed st
  answered : Answered st

/-- Nothing of a placed request depends on the calls, the sessions and the index. -/
theorem Placed.of_eq (h : Placed st) (hslots : st'.slots.length = st.slots.length)
    (hdispatchers : st'.dispatchers = st.dispatchers) (hasks : st'.asks = st.asks) :
    Placed st' := by
  have hrequests : st'.requests = st.requests := by rw [State.requests, hasks, State.requests]
  have hslotAt : st'.slotAt = st.slotAt := by
    funext d requestId
    rw [State.slotAt, hdispatchers, State.slotAt]
  refine ⟨?_, ?_, ?_, ?_, ?_, ?_⟩
  · rw [hrequests]
    exact h.ids
  · rw [hrequests]
    exact h.slots
  · rw [hrequests, hslots]
    exact h.bounded
  · rw [hrequests, hslotAt]
    exact h.known
  · rw [hasks, hslotAt]
    exact h.pending
  · rw [hasks]
    exact h.waiting

theorem Kept.setProvide (h : Kept st) {p : Nat} {c : Provide} (hc : st.provides[p]? = some c)
    (hbefore : c.phase ≠ .returned true) {phase : ProvidePhase} (hafter : phase ≠ .returned true)
    (hfound : ∀ s ∈ phase.slot, ∃ d, (d, c.requestId, s) ∈ st.requests) :
    Kept (st.setProvide p phase) :=
  ⟨h.placed.of_eq rfl rfl rfl, h.answered.setProvide hc hbefore hafter hfound⟩

theorem Kept.lookupIndex (h : Kept st) {p : Nat} (hstep : AskUser.lookupIndex p st = some st') :
    Kept st' := by
  unfold AskUser.lookupIndex at hstep
  split at hstep
  · rename_i requestId answer hc
    split at hstep <;> cases hstep <;> exact h.setProvide hc nofun nofun nofun
  · cases hstep

theorem Kept.lookupSession (h : Kept st) {p : Nat}
    (hstep : AskUser.lookupSession p st = some st') : Kept st' := by
  unfold AskUser.lookupSession at hstep
  split at hstep
  · rename_i requestId answer sessionId hc
    split at hstep <;> cases hstep <;> exact h.setProvide hc nofun nofun nofun
  · cases hstep

theorem Kept.lookupSlot (h : Kept st) {p : Nat} (hstep : AskUser.lookupSlot p st = some st') :
    Kept st' := by
  unfold AskUser.lookupSlot at hstep
  split at hstep
  · rename_i requestId answer d hc
    split at hstep
    · rename_i s hs
      cases hstep
      refine h.setProvide hc nofun nofun fun s' hs' => ?_
      cases hs'
      exact ⟨d, h.placed.known d requestId s hs⟩
    · cases hstep
      exact h.setProvide hc nofun nofun nofun
  · cases hstep

theorem Kept.store (h : Kept st) {p : Nat} (hok : StoresInTime st (.store p))
    (hstep : AskUser.store p st = some st') : Kept st' := by
  refine ⟨?_, h.answered.store h.placed hok hstep⟩
  obtain ⟨requestId, answer, s, _, rfl⟩ := store_eq hstep
  exact h.placed.of_eq (List.length_modify ..) rfl rfl

theorem Kept.reindex (h : Kept st) (index : AList fun _ : Str => Str) :
    Kept { st with askRequestToSession := index } :=
  ⟨h.placed.of_eq rfl rfl rfl, ⟨h.answered.done, h.answered.found, h.answered.accepted,
    h.answered.stored, h.answered.results⟩⟩

theorem Kept.register (h : Kept st) {i : Nat} (hstep : AskUser.register i st = some st') :
    Kept st' := by
  obtain ⟨a, index, ha, hphase, rfl⟩ := register_eq hstep
  have hpending := h.placed.pending a (List.mem_of_getElem? ha) (Or.inl hphase)
  have hindexed := h.reindex index
  exact ⟨hindexed.placed.setAsk ha (fun _ => hpending) nofun, hindexed.answered.setAsk ha nofun⟩

theorem Kept.wait (h : Kept st) {i : Nat} (hstep : AskUser.wait i st = some st') : Kept st' := by
  obtain ⟨a, ha, _, rfl⟩ := wait_eq h.placed hstep
  refine ⟨h.placed.setAsk ha (by rintro (heq | heq) <;> cases heq) fun s hs => ?_,
    h.answered.setAsk ha nofun⟩
  cases hs
  rfl

theorem Kept.conclude (h : Kept st) {i : Nat} (hstep : AskUser.conclude i st = some st') :
    Kept st' := by
  obtain ⟨a, ha, rfl⟩ := conclude_eq h.placed h.answered hstep
  refine ⟨h.placed.setAsk ha (by rintro (heq | heq) <;> cases heq) nofun,
    h.answered.setAsk ha fun result hresult => ?_⟩
  cases hresult
  rfl

/-- A result goes from one phase to the next. -/
theorem Answered.result_eq (h : Answered st) {i : Nat} {a : Ask} (ha : st.asks[i]? = some a)
    (result : Option Answer) (hresult : a.phase.result = some result) :
    result = st.answerIn a.slot :=
  h.results a (List.mem_of_getElem? ha) result hresult

theorem Kept.eraseSlot (h : Kept st) {i : Nat} (hstep : AskUser.eraseSlot i st = some st') :
    Kept st' := by
  obtain ⟨a, result, ha, hphase, rfl⟩ := eraseSlot_eq hstep
  have hresult := h.answered.result_eq ha result (by rw [hphase]; rfl)
  have hover : ¬ (a.phase = .emitted ∨ a.phase = .registered) := by
    rw [hphase]
    rintro (heq | heq) <;> cases heq
  have herased := h.placed.eraseSlot (List.mem_of_getElem? ha) hover
  refine ⟨herased.setAsk ha (by rintro (heq | heq) <;> cases heq) nofun, ?_⟩
  have hsame : Answered (st.modifyDispatcher a.dispatcher fun dispatcher =>
      { dispatcher with slots := dispatcher.slots.erase a.requestId }) :=
    ⟨h.answered.done, h.answered.found, h.answered.accepted, h.answered.stored,
      h.answered.results⟩
  refine hsame.setAsk ha fun result' hresult' => ?_
  cases hresult'
  exact hresult

theorem Kept.unregister (h : Kept st) {i : Nat} (hstep : AskUser.unregister i st = some st') :
    Kept st' := by
  obtain ⟨a, result, index, ha, hphase, rfl⟩ := unregister_eq hstep
  have hresult := h.answered.result_eq ha result (by rw [hphase]; rfl)
  have hindexed := h.reindex index
  refine ⟨hindexed.placed.setAsk ha (by rintro (heq | heq) <;> cases heq) nofun,
    hindexed.answered.setAsk ha fun result' hresult' => ?_⟩
  cases hresult'
  exact hresult

/-- A new session has a dispatcher without slots. -/
theorem Kept.openSession (h : Kept st) (sessionId : Str) (sessions : AList fun _ : Str => Nat) :
    Kept { st with
      dispatchers := st.dispatchers ++ [{ sessionId := sessionId }]
      sessions := sessions } := by
  have hslotAt : ∀ d requestId, State.slotAt { st with
      dispatchers := st.dispatchers ++ [{ sessionId := sessionId }]
      sessions := sessions } d requestId = st.slotAt d requestId := by
    intro d requestId
    simp only [State.slotAt, List.getElem?_append]
    split
    · rfl
    · rename_i hd
      rw [List.getElem?_eq_none (Nat.le_of_not_lt hd)]
      cases hlast : [({ sessionId := sessionId } : Dispatcher)][d - st.dispatchers.length]? with
      | none => rfl
      | some dispatcher =>
          rw [List.mem_singleton.mp (List.mem_of_getElem? hlast)]
          rfl
  refine ⟨⟨h.placed.ids, h.placed.slots, h.placed.bounded, fun d requestId s hs => ?_,
    fun a ha hphase => ?_, h.placed.waiting⟩, ⟨h.answered.done, h.answered.found,
    h.answered.accepted, h.answered.stored, h.answered.results⟩⟩
  · rw [hslotAt] at hs
    exact h.placed.known d requestId s hs
  · rw [hslotAt]
    exact h.placed.pending a ha hphase

theorem Kept.step (h : Kept st) {e : Event} (hok : StoresInTime st e)
    (hstep : AskUser.step st e = some st') : Kept st' := by
  cases e with
  | openSession sessionId =>
      cases hstep
      exact h.openSession sessionId _
  | removeSession sessionId =>
      cases hstep
      exact ⟨h.placed.of_eq rfl rfl rfl, ⟨h.answered.done, h.answered.found,
        h.answered.accepted, h.answered.stored, h.answered.results⟩⟩
  | emit d requestId => exact ⟨h.placed.emit hstep, h.answered.emit h.placed hstep⟩
  | register i => exact h.register hstep
  | wait i => exact h.wait hstep
  | conclude i => exact h.conclude hstep
  | eraseSlot i => exact h.eraseSlot hstep
  | unregister i => exact h.unregister hstep
  | provideUser requestId answer =>
      cases hstep
      exact ⟨h.placed.of_eq rfl rfl rfl, h.answered.call requestId answer nofun rfl⟩
  | provide d requestId answer =>
      cases hstep
      exact ⟨h.placed.of_eq rfl rfl rfl, h.answered.call requestId answer nofun rfl⟩
  | lookupIndex p => exact h.lookupIndex hstep
  | lookupSession p => exact h.lookupSession hstep
  | lookupSlot p => exact h.lookupSlot hstep
  | store p => exact h.store hok hstep

theorem kept_new : Kept {} where
  placed := ⟨List.nodup_nil, List.nodup_nil, nofun, nofun, nofun, nofun⟩
  answered := ⟨nofun, nofun, nofun, nofun, nofun⟩

/-- As long as answers are stored in time, each accepted one is delivered. -/
theorem delivered_of_storesInTime {st : State} (h : Run step StoresInTime {} st) :
    Delivered st :=
  (h.invariant kept_new fun _ _ _ hkept hok hstep => hkept.step hok hstep).answered.delivered

/-- Two answers to one request, the second before the wait is over, are both accepted. -/
theorem answer_overwritten : ¬ ∀ st, Run step AnyStep {} st → Delivered st := by
  intro h
  obtain ⟨st, hrun, hfirst, hsecond⟩ := exists_run_of_any step AnyStep {}
    (p := fun st => st.provides[0]? = some ⟨lit "ask-0", lit "yes", .returned true⟩ ∧
      st.provides[1]? = some ⟨lit "ask-0", lit "no", .returned true⟩)
    [.openSession (lit "s"), .emit 0 (lit "ask-0"), .register 0, .wait 0,
      .provideUser (lit "ask-0") (lit "yes"), .lookupIndex 0, .lookupSession 0, .lookupSlot 0,
      .provideUser (lit "ask-0") (lit "no"), .lookupIndex 1, .lookupSession 1, .lookupSlot 1,
      .store 0, .store 1, .conclude 0, .eraseSlot 0, .unregister 0]
    (by decide +kernel)
  exact absurd ((h st hrun).atMostOne 0 1 _ _ hfirst hsecond rfl rfl rfl) (by decide)

/-- One answer is delivered, and one that comes behind it is refused. -/
theorem answer_delivered : ∃ st, Run step StoresInTime {} st ∧
    st.provides = [⟨lit "ask-0", lit "yes", .returned true⟩,
      ⟨lit "ask-0", lit "no", .returned false⟩] ∧
    st.asks = [⟨0, lit "ask-0", 0, .returned (some ⟨lit "yes", 0⟩)⟩] ∧ Delivered st := by
  obtain ⟨st, hrun, hprovides, hasks⟩ := exists_run_of_any step StoresInTime {}
    (p := fun st => st.provides = [⟨lit "ask-0", lit "yes", .returned true⟩,
        ⟨lit "ask-0", lit "no", .returned false⟩] ∧
      st.asks = [⟨0, lit "ask-0", 0, .returned (some ⟨lit "yes", 0⟩)⟩])
    [.openSession (lit "s"), .emit 0 (lit "ask-0"), .register 0, .wait 0,
      .provideUser (lit "ask-0") (lit "yes"), .lookupIndex 0, .lookupSession 0, .lookupSlot 0,
      .store 0, .conclude 0, .eraseSlot 0, .unregister 0,
      .provideUser (lit "ask-0") (lit "no"), .lookupIndex 1]
    (by decide +kernel)
  exact ⟨st, hrun, hprovides, hasks, delivered_of_storesInTime hrun⟩

end JiuwenCore.AskUser
