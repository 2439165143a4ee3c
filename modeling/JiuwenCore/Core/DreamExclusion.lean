import JiuwenCore.Core.DreamBatches
import JiuwenCore.Core.DreamFailures

/-!
# Excluded sessions

The configuration lists sessions that the long-term memory should not see. The consolidation loop
hands the list to the memory runtime. The pass that takes over without a runtime, or where the
runtime returns `false`, does not have it: the history it reads is that of all sessions.

The runtime is a library of its own. It is what it sends to the model and returns.
-/

namespace JiuwenCore.Dream

open HistoryStore (HistoryEntry MemoryEvent Store appendEvent)

/-! ## A pass of the loop -/

structure MemoryConsolidationRequest where
  agentId : Str := []
  sessionId : Str := []
  maxEvents : Int32 := 100
  forceReprocess : Bool := false
  excludedSessionIds : List Str := []
  deriving DecidableEq, Repr

/-- What a runtime has done: the conversation texts of its prompts, and what it has returned or
thrown. -/
structure RuntimeEnd where
  conversations : List Str
  returned : Except Str Bool

/-- `Consolidate` of a runtime, on the events it has not processed. -/
structure MemoryRuntime where
  consolidate : MemoryConsolidationRequest → List MemoryEvent → RuntimeEnd

/-- Events of the sessions in the request never come into the batch of the runtime, and nothing
that processes the batch sees them. -/
def MemoryRuntime.SkipsExcluded (runtime : MemoryRuntime) : Prop :=
  ∀ request events, runtime.consolidate request events = runtime.consolidate request
    (events.filter fun event => event.sessionId ∉ request.excludedSessionIds)

/-- The part of an agent's configuration that its consolidation reads. -/
structure ConsolidationConfig where
  id : Str := []
  excludedConsolidationSessionIds : List Str := []
  dream : DreamConfig := {}
  deriving DecidableEq, Repr

def ConsolidationConfig.request (config : ConsolidationConfig) : MemoryConsolidationRequest where
  agentId := config.id
  forceReprocess := false
  excludedSessionIds := config.excludedConsolidationSessionIds

/-- The history after calls of `AppendEvent`, each at its time. -/
def storeOf (appended : List (Str × MemoryEvent)) : Store :=
  appended.foldl (fun st call => (appendEvent call.1 call.2 st).getD st) {}

/-- The events in the runtime, and those in the store that takes them without one. -/
structure Memory where
  inRuntime : List MemoryEvent := []
  appended : List (Str × MemoryEvent) := []
  dreamCursorFile : Option Str := none
  deriving DecidableEq, Repr

def Memory.store (m : Memory) : DreamStore where
  history := storeOf m.appended
  dreamCursorFile := m.dreamCursorFile

/-- The conversation text that Phase 1 of a pass sends to the model, if it sends one. -/
def conversation (config : DreamConfig) (d : DreamStore) : List Str :=
  let batch := batchOf config d.unprocessed
  if batch = [] then [] else [historyText config batch]

/-- The conversation texts of the prompts of one consolidation. -/
def conversations (config : ConsolidationConfig) (runtime : Option MemoryRuntime) (m : Memory) :
    List Str :=
  match runtime with
  | none => conversation config.dream m.store
  | some runtime =>
      let ended := runtime.consolidate config.request m.inRuntime
      match ended.returned with
      | .ok false => ended.conversations ++ conversation config.dream m.store
      | .ok true | .error _ => ended.conversations

/-- Phase 2 sends its prompts after those before it. -/
theorem phase2Loop_prompts {σ : Type} {config : DreamConfig} {tools : FileTools σ}
    {answers : Answers} {findings : List DreamFinding} {systemPrompt : Str} {fuel j : Nat}
    {st : Phase2State σ} {prompts : List Prompt} {ended : PhaseEnd σ}
    (h : phase2Loop config tools answers findings systemPrompt fuel j st prompts = some ended) :
    prompts <+: ended.prompts := by
  induction fuel generalizing j st prompts with
  | zero => cases h
  | succ fuel ih =>
      rw [phase2Loop] at h
      split at h
      · dsimp only at h
        split at h
        · cases h
          exact List.prefix_append _ _
        · split at h
          · cases h
            exact List.prefix_append _ _
          · exact (List.prefix_append _ _).trans (ih h)
      · cases h
        exact List.prefix_refl _

/-- The first prompt of a pass is that of Phase 1, with this text. -/
theorem run_conversation {σ : Type} {config : DreamConfig} {tools : FileTools σ}
    {answers : Answers} {now : Str} {fuel : Nat} {files : σ} {d : DreamStore} {ended : PassEnd σ}
    (h : run config tools answers now fuel files d = some ended) :
    ended.prompts.head?.toList =
      (conversation config d).map fun text => phase1Prompt config tools now text files := by
  unfold run at h
  dsimp only at h
  split at h
  · rename_i hnone
    cases h
    simp only [conversation, hnone, batchOf_nil, if_true]
    rfl
  · split at h
    · cases h
    · rename_i last hlast
      have hbatch : batchOf config d.unprocessed ≠ [] := by
        intro hnil
        rw [hnil] at hlast
        cases hlast
      rw [conversation, if_neg hbatch]
      split at h
      · cases h
        rfl
      · split at h
        · cases h
          rfl
        · obtain ⟨phase2, hphase2, rfl⟩ := Option.map_eq_some_iff.mp h
          obtain ⟨more, hmore⟩ := phase2Loop_prompts hphase2
          dsimp only
          rw [← hmore]
          rfl

/-! ## What is excluded -/

/-- The event of an entry. -/
def eventOfEntry (entry : HistoryEntry) : MemoryEvent where
  timestamp := entry.timestamp
  sessionId := entry.sessionId
  role := entry.role
  content := entry.content
  toolCallId := entry.toolCallId
  toolName := entry.toolName
  payloadRef := entry.payloadRef

/-- The unprocessed events differ only in those of excluded sessions. -/
def SameBut (excluded : List Str) (m m' : Memory) : Prop :=
  m.inRuntime.filter (fun event => event.sessionId ∉ excluded) =
      m'.inRuntime.filter (fun event => event.sessionId ∉ excluded) ∧
    (m.store.unprocessed.map eventOfEntry).filter (fun event => event.sessionId ∉ excluded) =
      (m'.store.unprocessed.map eventOfEntry).filter (fun event => event.sessionId ∉ excluded)

instance (excluded : List Str) (m m' : Memory) : Decidable (SameBut excluded m m') :=
  inferInstanceAs (Decidable (_ ∧ _))

/-- Events of excluded sessions make no difference to what the model reads, and a pass that gets
to its end moves the cursor behind its batch, whatever sessions are in it. -/
structure Excludes {σ : Type} (config : ConsolidationConfig) (runtime : Option MemoryRuntime)
    (tools : FileTools σ) : Prop where
  conversations : ∀ m m', SameBut config.excludedConsolidationSessionIds m m' →
    Dream.conversations config runtime m = Dream.conversations config runtime m'
  cursor : ∀ answers now fuel files m ended,
    run config.dream tools answers now fuel files (Memory.store m) = some ended →
      ended.store = m.store ∨
        ∃ last, (batchOf config.dream m.store.unprocessed).getLast? = some last ∧
          ended.store = m.store.setLastDreamCursor last.cursor

/-! ## Texts of the fallback -/

theorem batchOf_map (config : DreamConfig) {entries entries' : List HistoryEntry}
    (h : entries.map eventOfEntry = entries'.map eventOfEntry) :
    (batchOf config entries).map eventOfEntry = (batchOf config entries').map eventOfEntry := by
  have hlength : entries.length = entries'.length := by
    have hmapped := congrArg List.length h
    simpa using hmapped
  rw [batchOf, batchOf, List.map_take, List.map_take, h, hlength]

theorem historyText_map {config : DreamConfig} {batch batch' : List HistoryEntry}
    (h : batch.map eventOfEntry = batch'.map eventOfEntry) :
    historyText config batch = historyText config batch' := by
  -- The line of an entry has nothing of its cursor.
  have hline : historyLine config = (fun event : MemoryEvent =>
      historyLine config ⟨0, event.timestamp, event.sessionId, event.role, event.content,
        event.toolCallId, event.toolName, event.payloadRef⟩) ∘ eventOfEntry := rfl
  rw [historyText, historyText, hline, ← List.map_map, ← List.map_map, h]

theorem conversation_map (config : DreamConfig) {d d' : DreamStore}
    (h : d.unprocessed.map eventOfEntry = d'.unprocessed.map eventOfEntry) :
    conversation config d = conversation config d' := by
  have hbatch := batchOf_map config h
  have hnil : batchOf config d.unprocessed = [] ↔ batchOf config d'.unprocessed = [] := by
    rw [← List.map_eq_nil_iff (f := eventOfEntry), hbatch, List.map_eq_nil_iff]
  unfold conversation
  dsimp only
  rw [historyText_map hbatch]
  simp only [hnil]

/-- Only text goes into the history. -/
structure Readable (st : Store) : Prop where
  idle : st.append = none
  complete : st.tail = []
  sessions : ∀ entry ∈ st.readAllEntries, Utf8.Text entry.sessionId

theorem Readable.append {st st' : Store} (h : Readable st) {now : Str} {event : MemoryEvent}
    (happend : appendEvent now event st = some st') : Readable st' := by
  rcases HistoryStore.appendEvent_spec h.idle h.complete happend with ⟨hall, hidle, htail, _⟩
  refine ⟨hidle, htail, fun entry hentry => ?_⟩
  rw [hall] at hentry
  rcases List.mem_append.mp hentry with hentry | hentry
  · exact h.sessions entry hentry
  · rw [List.mem_singleton.mp hentry]
    have hdumps := (Option.ite_none_right_eq_some.mp happend).1
    exact hdumps _ (List.mem_cons_of_mem _ List.mem_cons_self)

theorem storeOf_readable (appended : List (Str × MemoryEvent)) : Readable (storeOf appended) := by
  have hfold : ∀ st, Readable st →
      Readable (appended.foldl (fun st call => (appendEvent call.1 call.2 st).getD st) st) := by
    induction appended with
    | nil => exact fun st hst => hst
    | cons call rest ih =>
        intro st hst
        have hnext : Readable ((appendEvent call.1 call.2 st).getD st) := by
          cases happend : appendEvent call.1 call.2 st with
          | none => exact hst
          | some st' => exact hst.append happend
        exact ih _ hnext
  exact hfold {} ⟨rfl, rfl, nofun⟩

/-- Where no excluded session can have events, the filter keeps all of them. -/
theorem unprocessed_kept {excluded : List Str} (h : ∀ sessionId ∈ excluded, ¬ Utf8.Text sessionId)
    (m : Memory) :
    (m.store.unprocessed.map eventOfEntry).filter (fun event => event.sessionId ∉ excluded) =
      m.store.unprocessed.map eventOfEntry := by
  apply List.filter_eq_self.mpr
  intro event hevent
  obtain ⟨entry, hentry, rfl⟩ := List.mem_map.mp hevent
  have htext := (storeOf_readable m.appended).sessions entry (mem_unprocessed hentry).1
  apply decide_eq_true
  intro hexcluded
  exact h _ hexcluded htext

/-! ## When excluded sessions make no difference -/

/-- An event of the session, and nothing else. -/
def tick (sessionId : Str) : MemoryEvent where
  timestamp := lit "t"
  sessionId := sessionId
  role := lit "user"
  content := lit "tick"

theorem storeOf_tick {sessionId : Str} (h : Utf8.Text sessionId) :
    (storeOf [([], tick sessionId)]).readAllEntries =
      [HistoryStore.entryOf 1 [] (tick sessionId)] := by
  have hdumps : (HistoryStore.entryOf 1 [] (tick sessionId)).dumps := by
    have hrest : Utf8.Text (lit "t") ∧ Utf8.Text (lit "user") ∧ Utf8.Text (lit "tick") ∧
        Utf8.Text [] := by decide +kernel
    intro text htext
    simp only [HistoryStore.entryOf, tick, List.mem_cons, List.not_mem_nil, or_false] at htext
    rcases htext with rfl | rfl | rfl | rfl | rfl | rfl | rfl
    · exact hrest.1
    · exact h
    · exact hrest.2.1
    · exact hrest.2.2.1
    · exact hrest.2.2.2
    · exact hrest.2.2.2
    · exact hrest.2.2.2
  have happend : HistoryStore.appendEvent [] (tick sessionId) {} = _ :=
    HistoryStore.appendEvent_of_dumps hdumps
  have hall := (HistoryStore.appendEvent_spec rfl rfl happend).1
  rw [storeOf, List.foldl_cons, List.foldl_nil, happend]
  exact hall

theorem unprocessed_tick {m : Memory} {sessionId : Str} (h : Utf8.Text sessionId)
    (happended : m.appended = [([], tick sessionId)]) (hcursor : m.dreamCursorFile = none) :
    m.store.unprocessed = [HistoryStore.entryOf 1 [] (tick sessionId)] := by
  have hzero : m.store.getLastDreamCursor = 0 := by
    rw [DreamStore.getLastDreamCursor, Memory.store, hcursor]
    rfl
  rw [DreamStore.unprocessed, hzero, Store.readUnprocessedHistory, Memory.store, happended,
    storeOf_tick h]
  rfl

theorem conversation_none {config : DreamConfig} {m : Memory} (happended : m.appended = []) :
    conversation config m.store = [] := by
  have hnone : m.store.unprocessed = [] := by
    rw [DreamStore.unprocessed, Memory.store, happended]
    rfl
  rw [conversation, hnone, batchOf_nil]
  rfl

/-- Where a batch may have an entry, the event is sent. -/
theorem conversation_tick {config : DreamConfig} (hbatch : 0 < config.maxBatchSize) {d : DreamStore}
    {entry : HistoryEntry} (h : d.unprocessed = [entry]) :
    conversation config d = [historyText config [entry]] := by
  have hone : Int32.ofNat 1 ≤ config.maxBatchSize := by
    rw [Int32.le_iff_toInt_le]
    rw [Int32.lt_iff_toInt_lt] at hbatch
    exact hbatch
  have hmin : min (Int32.ofNat 1) config.maxBatchSize = Int32.ofNat 1 := if_pos hone
  have hall : batchOf config [entry] = [entry] := by
    rw [batchOf, List.length_singleton, hmin]
    rfl
  rw [conversation, h, hall]
  rfl

/-- A pass leaves the cursor, or it moves it behind its batch. -/
theorem run_cursor {σ : Type} {config : DreamConfig} {tools : FileTools σ} {answers : Answers}
    {now : Str} {fuel : Nat} {files : σ} {d : DreamStore} {ended : PassEnd σ}
    (h : run config tools answers now fuel files d = some ended) :
    ended.store = d ∨ ∃ last, (batchOf config d.unprocessed).getLast? = some last ∧
      ended.store = d.setLastDreamCursor last.cursor := by
  by_cases hsome : d.unprocessed = []
  · simp only [run, if_pos hsome] at h
    cases h
    exact .inl rfl
  · cases hlast : (batchOf config d.unprocessed).getLast? with
    | none =>
        simp only [run, if_neg hsome, hlast] at h
        cases h
    | some last =>
        rcases run_spec hlast hsome h with hstore | hstore
        · exact .inl hstore
        · exact .inr ⟨last, rfl, hstore.1⟩

/-- Sends what is said in the sessions that are not excluded. -/
def filtering : MemoryRuntime where
  consolidate := fun request events =>
    { conversations := [((events.filter fun event =>
        event.sessionId ∉ request.excludedSessionIds).map (·.content)).flatten]
      returned := .ok true }

end JiuwenCore.Dream
