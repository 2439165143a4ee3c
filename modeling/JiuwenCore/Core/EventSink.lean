import JiuwenCore.Context.Engine
import JiuwenCore.Core.HistoryStore
import JiuwenCore.Utils.Encoding

/-!
# The fallback event sink

Without a memory runtime every message that `AddMessage` accepts also goes to
`HistoryStore::AppendEvent`. The sink is called last, after the buffer and the storage have
the message, and nothing catches what it throws.
-/

namespace JiuwenCore.HistoryStore

open ContextEngine Json

/-! ## A whole `AppendEvent` -/

/-- `AppendEvent` with all files at hand, `none` where `dump` throws. Nothing is written
then. -/
def appendEvent (now : Str) (event : MemoryEvent) (st : Store) : Option Store :=
  let cursor := nextCursor (readCursor st.cursorFile)
  let entry := entryOf cursor now event
  if entry.dumps then
    some { st with
      lines := st.lines ++ [st.tail ++ [.whole entry]]
      tail := []
      cursorFile := some (printInt cursor) }
  else none

/-- The file operations of one call, in the order of the source. -/
def appendEvents (now : Str) (event : MemoryEvent) : List Event :=
  [.begin {} now event, .flush .line, .truncate, .writeCursor, .finish]

/-- The call is its file operations, with none of another call in between. -/
theorem runEvents_appendEvent {now : Str} {event : MemoryEvent} {st st' : Store}
    (hidle : st.append = none) (h : appendEvent now event st = some st') :
    runEvents step AnyStep st (appendEvents now event) = some st' := by
  unfold appendEvent at h
  dsimp only at h
  split at h
  · rename_i hdumps
    cases h
    have hbegin : step st (.begin {} now event) = some { st with
        append := some
          { entry := entryOf (nextCursor (readCursor st.cursorFile)) now event, opens := {} } } := by
      simp only [step, begin, hidle]
      apply if_neg
      intro hthrows
      exact hthrows.2 hdumps
    simp only [appendEvents, runEvents, AnyStep, if_true, hbegin, Option.bind_some]
    simp [step, flush, truncate, writeCursor, finish, Flushed.rank, hidle]
    rfl
  · cases h

/-- A text that is not UTF-8 ends the call before its first file operation. -/
theorem begin_of_throws {now : Str} {event : MemoryEvent} {st : Store}
    (hidle : st.append = none) (h : appendEvent now event st = none) :
    step st (.begin {} now event) = some st := by
  unfold appendEvent at h
  dsimp only at h
  split at h
  · cases h
  · rename_i hdumps
    simp only [step, begin, hidle]
    exact if_pos ⟨trivial, hdumps⟩

/-! ## Lines stay -/

variable {st st' : Store}

theorem step_lines {e : Event} (h : step st e = some st') : st.lines <+: st'.lines := by
  have hsame {st'' : Store} (hlines : st''.lines = st.lines) : st.lines <+: st''.lines := by
    rw [hlines]
  cases e with
  | begin opens now event =>
      simp only [step, begin] at h
      split at h
      · cases h
      · split at h
        all_goals
          split at h
          all_goals
            cases h
            exact hsame rfl
  | flush flushed =>
      simp only [step, flush] at h
      split at h
      · split at h
        · split at h
          · cases h
            exact List.prefix_append _ _
          · cases h
            exact hsame rfl
        · cases h
      · cases h
  | truncate =>
      simp only [step, truncate] at h
      split at h
      · split at h <;> cases h
        exact hsame rfl
      · cases h
  | writeCursor =>
      simp only [step, writeCursor] at h
      split at h
      · split at h <;> cases h
        exact hsame rfl
      · cases h
  | finish =>
      simp only [step, finish] at h
      split at h
      · split at h <;> cases h
        exact hsame rfl
      · cases h
  | crash cursorFile =>
      cases h
      exact hsame rfl

theorem run_lines (h : Run step AnyStep st st') : st.lines <+: st'.lines := by
  apply h.invariant (motive := fun later => st.lines <+: later.lines) (List.prefix_refl _)
  intro s e s' hlines _ hstep
  exact hlines.trans (step_lines hstep)

/-- What the complete lines hold is read before anything behind them. -/
theorem readAllEntries_lines (st : Store) :
    st.lines.filterMap readLine <+: st.readAllEntries := by
  rw [Store.readAllEntries, List.filterMap_append]
  exact List.prefix_append _ _

/-! ## `AddMessage` with the sink -/

/-- The event of a message as it was stamped. -/
def eventOf (sessionId : Str) (stored : Message) : MemoryEvent where
  timestamp := stored.timestamp
  sessionId := sessionId
  role := stored.role
  content := stored.content
  toolCallId := stored.toolCallId
  toolName := stored.toolName
  payloadRef := stored.payloadRef

/-- A session and the history it shares with the others. -/
structure SinkState (σ : Type) where
  engine : Engine σ
  history : Store

inductive Outcome where
  | returned
  | thrown
  deriving DecidableEq, Repr

/-- `AddMessage` up to its end. `now` is the time it reads, `later` that of `AppendEvent`. -/
def addMessageToHistory {σ : Type} (storage : Storage σ) (sessionId now later : Str)
    (message : Message) (s : SinkState σ) : Outcome × SinkState σ :=
  if isValidMessage message then
    let s := { s with engine := addMessage storage now message s.engine }
    match appendEvent later (eventOf sessionId (stamp now message)) s.history with
    | some history => (.returned, { s with history := history })
    | none => (.thrown, s)
  else (.returned, s)

/-- The entry `AppendEvent` makes of the message. -/
def entryFor (sessionId now later : Str) (message : Message) (st : Store) : HistoryEntry :=
  entryOf (nextCursor (readCursor st.cursorFile)) later (eventOf sessionId (stamp now message))

/-- The call returns, and if the message is accepted, every later reading behind a smaller
cursor gives what could be read before the call, and then the event. -/
def Delivered {σ : Type} (storage : Storage σ) (sessionId now later : Str) (message : Message)
    (s : SinkState σ) : Prop :=
  let result := addMessageToHistory storage sessionId now later message s
  result.1 = .returned ∧ (isValidMessage message = true →
    ∀ st, Run step AnyStep result.2.history st →
      ∀ c, c < (entryFor sessionId now later message s.history).cursor →
        s.history.readUnprocessedHistory c ++ [entryFor sessionId now later message s.history] <+:
          st.readUnprocessedHistory c)

/-- Where the sink throws, the message is in the buffer and in the storage, and the history
has nothing of it. -/
theorem addMessage_thrown {σ : Type} {storage : Storage σ} {sessionId now later : Str}
    {message : Message} {s : SinkState σ}
    (h : (addMessageToHistory storage sessionId now later message s).1 = .thrown) :
    (addMessageToHistory storage sessionId now later message s).2 =
      { engine :=
          { memoryBuffer := s.engine.memoryBuffer ++ [stamp now message]
            storage := storage.saveMessage s.engine.storage (stamp now message) }
        history := s.history } := by
  unfold addMessageToHistory at h ⊢
  split
  · rename_i hvalid
    rw [if_pos hvalid] at h
    dsimp only at h ⊢
    cases happend : appendEvent later (eventOf sessionId (stamp now message)) s.history with
    | some history =>
        rw [happend] at h
        cases h
    | none => rw [addMessage, if_pos hvalid]
  · rename_i hvalid
    rw [if_neg hvalid] at h
    cases h

/-! ## What is read back -/

/-- The history after an `AppendEvent` that does not throw. -/
theorem appendEvent_of_dumps {now : Str} {event : MemoryEvent} {st : Store}
    (h : (entryOf (nextCursor (readCursor st.cursorFile)) now event).dumps) :
    appendEvent now event st = some { st with
      lines := st.lines ++
        [st.tail ++ [.whole (entryOf (nextCursor (readCursor st.cursorFile)) now event)]]
      tail := []
      cursorFile := some (printInt (nextCursor (readCursor st.cursorFile))) } :=
  if_pos h

theorem readAllEntries_idle (hidle : st.append = none) :
    st.readAllEntries = st.lines.filterMap readLine ++ (readLine st.tail).toList := by
  rw [Store.readAllEntries, Store.openLine, hidle, List.filterMap_append]
  simp only [Option.map_none, Option.getD_none, List.append_nil]
  cases hline : readLine st.tail <;> simp [hline]

theorem readAllEntries_closed (hidle : st.append = none) (htail : st.tail = []) :
    st.readAllEntries = st.lines.filterMap readLine := by
  rw [readAllEntries_idle hidle, htail]
  exact List.append_nil _

/-- The new line is read back as its entry where the last one was complete. -/
theorem filterMap_appended (hidle : st.append = none) (htail : st.tail = [])
    (entry : HistoryEntry) :
    (st.lines ++ [st.tail ++ [Piece.whole entry]]).filterMap readLine =
      st.readAllEntries ++ [entry] := by
  rw [readAllEntries_idle hidle, htail, List.filterMap_append]
  simp [readLine]

/-- What a whole `AppendEvent` leaves behind a complete last line. -/
theorem appendEvent_spec {now : Str} {event : MemoryEvent} (hidle : st.append = none)
    (htail : st.tail = []) (h : appendEvent now event st = some st') :
    st'.readAllEntries =
        st.readAllEntries ++ [entryOf (nextCursor (readCursor st.cursorFile)) now event] ∧
      st'.append = none ∧ st'.tail = [] ∧
      st'.cursorFile = some (printInt (nextCursor (readCursor st.cursorFile))) := by
  unfold appendEvent at h
  dsimp only at h
  split at h
  · cases h
    refine ⟨?_, hidle, rfl, rfl⟩
    rw [← filterMap_appended hidle htail]
    exact readAllEntries_closed hidle rfl
  · cases h

/-- Where the last line was complete, the new one is read back behind those before. -/
theorem unprocessed_appended (hidle : st.append = none) (htail : st.tail = [])
    {entry : HistoryEntry} (hlines : st.lines ++ [st.tail ++ [.whole entry]] <+: st'.lines)
    {c : Int} (hc : c < entry.cursor) :
    st.readUnprocessedHistory c ++ [entry] <+: st'.readUnprocessedHistory c := by
  have hread : (st.lines ++ [st.tail ++ [Piece.whole entry]]).filterMap readLine <+:
      st'.readAllEntries :=
    (hlines.filterMap readLine).trans (readAllEntries_lines st')
  rw [filterMap_appended hidle htail] at hread
  have hkept : [entry].filter (fun e => ¬ e.cursor ≤ c) = [entry] := by
    apply List.filter_cons_of_pos
    simpa using hc
  have hfilter := hread.filter fun e => ¬ e.cursor ≤ c
  rw [List.filter_append, hkept] at hfilter
  exact hfilter

/-- Behind a torn line the new one is not read, and nothing else is read either. -/
theorem unprocessed_torn (hidle : st'.append = none) (htail : st.tail ≠ [])
    {entry : HistoryEntry} (hlines : st'.lines = st.lines ++ [st.tail ++ [.whole entry]])
    (htail' : st'.tail = []) (c : Int) :
    (st'.readUnprocessedHistory c).length ≤ (st.readUnprocessedHistory c).length := by
  have hall : st'.readAllEntries = st.lines.filterMap readLine := by
    have hlast : [st.tail ++ [Piece.whole entry]].filterMap readLine = [] := by
      rw [List.filterMap_cons, readLine_longer htail]
      rfl
    rw [readAllEntries_idle hidle, hlines, htail', List.filterMap_append, hlast,
      List.append_nil]
    exact List.append_nil _
  rw [Store.readUnprocessedHistory, hall]
  exact ((readAllEntries_lines st).filter _).length_le

/-- An accepted message reaches the consolidation exactly when all its texts are UTF-8 and the
history ends with a line break. -/
theorem addMessage_delivers_iff {σ : Type} (storage : Storage σ) (sessionId now later : Str)
    (message : Message) (s : SinkState σ) (hidle : s.history.append = none) :
    Delivered storage sessionId now later message s ↔
      (isValidMessage message = true →
        (entryFor sessionId now later message s.history).dumps ∧ s.history.tail = []) := by
  unfold Delivered addMessageToHistory
  by_cases hvalid : isValidMessage message = true
  · rw [if_pos hvalid]
    dsimp only
    by_cases hdumps : (entryFor sessionId now later message s.history).dumps
    · rw [appendEvent_of_dumps hdumps]
      dsimp only
      constructor
      · rintro ⟨-, hread⟩ -
        refine ⟨hdumps, ?_⟩
        by_contra htail
        have hlength := (hread hvalid _ .start
          ((entryFor sessionId now later message s.history).cursor - 1) (by omega)).length_le
        let torn : Store := { s.history with
          lines := s.history.lines ++
            [s.history.tail ++ [.whole (entryFor sessionId now later message s.history)]]
          tail := []
          cursorFile := some (printInt (nextCursor (readCursor s.history.cursorFile))) }
        have hidle' : torn.append = none := hidle
        have hshort := unprocessed_torn hidle' htail rfl rfl
          ((entryFor sessionId now later message s.history).cursor - 1)
        rw [List.length_append, List.length_singleton] at hlength
        exact absurd (hlength.trans hshort) (by omega)
      · intro hok
        have htail := (hok hvalid).2
        refine ⟨rfl, fun _ st hrun c hc => ?_⟩
        exact unprocessed_appended hidle htail (run_lines hrun) hc
    · have hthrows : appendEvent later (eventOf sessionId (stamp now message)) s.history = none :=
        if_neg hdumps
      rw [hthrows]
      constructor
      · intro h
        cases h.1
      · intro hok
        exact absurd (hok hvalid).1 hdumps
  · rw [if_neg hvalid]
    exact ⟨fun _ hv => absurd hv hvalid, fun _ => ⟨rfl, fun hv => absurd hv hvalid⟩⟩

/-- Keeps the messages in the order they come in. -/
def listStorage : Storage (List Message) where
  saveMessage := fun kept message => kept ++ [message]
  loadHistory := fun kept => (kept, true)

theorem addMessage_delivers_hello :
    Delivered listStorage (lit "s1") (lit "t") (lit "t")
      { role := Role.user, content := lit "hello" }
      { engine := { memoryBuffer := [], storage := [] }, history := {} } :=
  (addMessage_delivers_iff listStorage (lit "s1") (lit "t") (lit "t")
    { role := Role.user, content := lit "hello" }
    { engine := { memoryBuffer := [], storage := [] }, history := {} } rfl).mpr
    fun _ => by decide +kernel

/-- The bytes of a tool result that are not UTF-8 throw out of `AddMessage`. -/
theorem toolResult_throws : ¬ ∀ (message : Message) (s : SinkState (List Message)),
    s.history.append = none → Delivered listStorage (lit "s1") (lit "t") (lit "t") message s := by
  intro h
  have hdelivered := h
    { role := Role.tool, content := [0xFF], toolCallId := lit "call_s1_1" }
    { engine := { memoryBuffer := [], storage := [] }, history := {} } rfl
  exact absurd hdelivered.1 (by decide +kernel)

end JiuwenCore.HistoryStore
