import JiuwenCore.JsonReader
import JiuwenCore.Lib.Runs
import Mathlib.Data.List.TakeWhile

/-!
# The history store

`AppendEvent` numbers the events of all sessions and writes them to a file, one a line;
the last number is kept in a second file, which is truncated before it is written. The
steps below are the file operations, with a crash between any two of them.

A line is kept as the pieces that were written to it: a reader parses a line that is one
whole entry, and skips every other as malformed.
-/

namespace JiuwenCore.HistoryStore

open Json (isDigit printInt)

/-! ## The cursor file -/

def isSpace (c : UInt8) : Bool := c = 32 ∨ (9 ≤ c ∧ c ≤ 13)

/-- The sign in front of a number, and the rest. -/
def signed : Str → Int × Str
  | 45 :: rest => (-1, rest)
  | 43 :: rest => (1, rest)
  | rest => (1, rest)

/-- `std::stoi`, `none` where it throws. -/
def stoi (text : Str) : Option Int :=
  let (sign, rest) := signed (text.dropWhile isSpace)
  let digits := rest.takeWhile isDigit
  let value := sign * ofDecimal digits
  if digits ≠ [] ∧ -2 ^ 31 ≤ value ∧ value < 2 ^ 31 then some value else none

/-- `ReadCursor`: the number on the first line, 0 if there is none. -/
def readCursor (cursorFile : Option Str) : Int :=
  (cursorFile.bind fun text => stoi (text.takeWhile (· ≠ 10))).getD 0

example : readCursor (some (lit " 12\nx")) = 12 := by decide
example : readCursor (some []) = 0 := by decide

/-- `NextCursor`; an `int` wraps. -/
def nextCursor (current : Int) : Int := Int.bmod (current + 1) (2 ^ 32)

theorem signed_of_digit {c : UInt8} (h : isDigit c = true) (rest : Str) :
    signed (c :: rest) = (1, c :: rest) := by
  have hminus : c ≠ 45 := by
    rintro rfl
    cases h
  have hplus : c ≠ 43 := by
    rintro rfl
    cases h
  unfold signed
  split
  · rename_i heq
    exact absurd (List.cons.inj heq).1 hminus
  · rename_i heq
    exact absurd (List.cons.inj heq).1 hplus
  · rfl

theorem toDecimal_cons (n : Nat) : ∃ c digits, toDecimal n = c :: digits ∧ isDigit c = true := by
  obtain ⟨c, digits, h⟩ := List.exists_cons_of_ne_nil (Json.toDecimal_ne_nil n)
  exact ⟨c, digits, h, Json.toDecimal_digits n c (h ▸ List.mem_cons_self)⟩

theorem isSpace_of_digit {c : UInt8} (h : isDigit c = true) : ¬ isSpace c = true := by
  intro hspace
  simp only [isSpace, isDigit, decide_eq_true_eq] at hspace h
  rcases hspace with rfl | ⟨_, hle⟩
  · exact absurd h.1 (by decide)
  · exact absurd (UInt8.le_trans h.1 hle) (by decide)

theorem signed_printInt (c : Int) :
    signed ((printInt c).dropWhile isSpace) = (if c < 0 then -1 else 1, toDecimal c.natAbs) := by
  unfold printInt
  split
  · rfl
  · obtain ⟨d, digits, hdigits, hd⟩ := toDecimal_cons c.natAbs
    rw [hdigits, List.dropWhile_cons_of_neg (isSpace_of_digit hd), signed_of_digit hd]

/-- A number that was written is read back. -/
theorem stoi_printInt {c : Int} (hmin : -2 ^ 31 ≤ c) (hmax : c < 2 ^ 31) :
    stoi (printInt c) = some c := by
  have htake : (toDecimal c.natAbs).takeWhile isDigit = toDecimal c.natAbs :=
    List.takeWhile_eq_self_iff.mpr (Json.toDecimal_digits _)
  have hvalue : (if c < 0 then -1 else 1) * (c.natAbs : Int) = c := by
    split <;> omega
  rw [stoi, signed_printInt]
  simp only [htake, ofDecimal_toDecimal, hvalue]
  exact if_pos ⟨Json.toDecimal_ne_nil _, hmin, hmax⟩

theorem printInt_line (c : Int) : (printInt c).takeWhile (· ≠ 10) = printInt c := by
  have hdigits : ∀ b ∈ toDecimal c.natAbs, b ≠ 10 := by
    rintro b hb rfl
    cases Json.toDecimal_digits _ _ hb
  refine List.takeWhile_eq_self_iff.mpr fun b hb => decide_eq_true ?_
  unfold printInt at hb
  split at hb
  · rcases List.mem_cons.mp hb with rfl | hb
    · decide
    · exact hdigits b hb
  · exact hdigits b hb

theorem readCursor_printInt {c : Int} (hmin : -2 ^ 31 ≤ c) (hmax : c < 2 ^ 31) :
    readCursor (some (printInt c)) = c := by
  rw [readCursor, Option.bind_some, printInt_line, stoi_printInt hmin hmax]
  rfl

theorem stoi_range {text : Str} {c : Int} (h : stoi text = some c) : -2 ^ 31 ≤ c ∧ c < 2 ^ 31 := by
  obtain ⟨hrange, heq⟩ := Option.ite_none_right_eq_some.mp h
  rw [← Option.some.inj heq]
  exact hrange.2

theorem readCursor_range (cursorFile : Option Str) :
    -2 ^ 31 ≤ readCursor cursorFile ∧ readCursor cursorFile < 2 ^ 31 := by
  unfold readCursor
  cases h : cursorFile.bind fun text => stoi (text.takeWhile (· ≠ 10)) with
  | none => decide
  | some c =>
      obtain ⟨text, _, hc⟩ := Option.bind_eq_some_iff.mp h
      exact stoi_range hc

theorem nextCursor_eq {c : Int} (hmin : -2 ^ 31 ≤ c) (hmax : c < 2 ^ 31 - 1) :
    nextCursor c = c + 1 := by
  rw [nextCursor]
  exact Int.bmod_eq_of_le (by omega) (by omega)

/-! ## The files -/

structure MemoryEvent where
  timestamp : Str := []
  sessionId : Str := []
  role : Str := []
  content : Str := []
  toolCallId : Str := []
  toolName : Str := []
  payloadRef : Str := []
  deriving DecidableEq, Repr

/-- What a line holds. -/
structure HistoryEntry where
  cursor : Int
  timestamp : Str
  sessionId : Str
  role : Str
  content : Str
  toolCallId : Str
  toolName : Str
  payloadRef : Str
  deriving DecidableEq, Repr

/-- The entry of an event, stamped with the time of the call if it has none. -/
def entryOf (cursor : Int) (now : Str) (event : MemoryEvent) : HistoryEntry where
  cursor := cursor
  timestamp := if event.timestamp = [] then now else event.timestamp
  sessionId := event.sessionId
  role := event.role
  content := event.content
  toolCallId := event.toolCallId
  toolName := event.toolName
  payloadRef := event.payloadRef

/-- The entry is dumped; a text that is not UTF-8 throws. -/
def HistoryEntry.dumps (entry : HistoryEntry) : Prop :=
  ∀ text ∈ [entry.timestamp, entry.sessionId, entry.role, entry.content, entry.toolCallId,
    entry.toolName, entry.payloadRef], Utf8.Text text

instance (entry : HistoryEntry) : Decidable entry.dumps :=
  inferInstanceAs (Decidable (∀ text ∈ [entry.timestamp, entry.sessionId, entry.role,
    entry.content, entry.toolCallId, entry.toolName, entry.payloadRef], Utf8.Text text))

/-- What one `AppendEvent` has written to a line: a part of an entry or all of it. -/
inductive Piece where
  | whole (entry : HistoryEntry)
  | torn
  deriving DecidableEq, Repr

abbrev Line := List Piece

def readLine : Line → Option HistoryEntry
  | [.whole entry] => some entry
  | _ => none

/-- The cursors of the lines that are read. -/
def cursorsOf (lines : List Line) : List Int := (lines.filterMap readLine).map (·.cursor)

/-- Which of its files an `AppendEvent` can open. -/
structure Opens where
  reads : Bool := true
  history : Bool := true
  cursor : Bool := true
  deriving DecidableEq, Repr

/-- How much of the line the stream has flushed. -/
inductive Flushed where
  | nothing
  | part
  | text
  | line
  deriving DecidableEq, Repr

def Flushed.rank : Flushed → Nat
  | nothing => 0
  | part => 1
  | text => 2
  | line => 3

/-- What is at the end of the file for it. -/
def Flushed.pieces (entry : HistoryEntry) : Flushed → Line
  | nothing => []
  | part => [.torn]
  | text => [.whole entry]
  | line => []

inductive CursorStage where
  | untouched
  | truncated
  | written
  deriving DecidableEq, Repr

/-- An `AppendEvent` under way, in the lock of the store. -/
structure Append where
  entry : HistoryEntry
  opens : Opens
  flushed : Flushed := .nothing
  cursorStage : CursorStage := .untouched
  deriving DecidableEq, Repr

/-- The complete lines of `history.jsonl`, what earlier runs have left behind the last one,
and `.cursor`. -/
structure Store where
  lines : List Line := []
  tail : Line := []
  cursorFile : Option Str := none
  append : Option Append := none
  deriving DecidableEq, Repr

namespace Store

/-- What stands behind the last complete line. -/
def openLine (st : Store) : Line :=
  st.tail ++ (st.append.map fun a => a.flushed.pieces a.entry).getD []

/-- `ReadAllEntries` of the file as it is. -/
def readAllEntries (st : Store) : List HistoryEntry :=
  (st.lines ++ [st.openLine]).filterMap readLine

/-- `ReadUnprocessedHistory`. -/
def readUnprocessedHistory (sinceCursor : Int) (st : Store) : List HistoryEntry :=
  st.readAllEntries.filter fun entry => ¬ entry.cursor ≤ sinceCursor

def cursors (st : Store) : List Int := st.readAllEntries.map (·.cursor)

end Store

/-! ## Steps -/

inductive Event where
  | begin (opens : Opens) (now : Str) (event : MemoryEvent)
  | flush (flushed : Flushed)
  | truncate
  | writeCursor
  | finish
  | crash (cursorFile : Option Str)
  deriving DecidableEq, Repr

/-- `AppendEvent` up to the first file operation; the exception of a dump leaves it. -/
def begin (opens : Opens) (now : Str) (event : MemoryEvent) (st : Store) : Option Store :=
  match st.append with
  | some _ => none
  | none =>
      let current := if opens.reads then readCursor st.cursorFile else 0
      let entry := entryOf (nextCursor current) now event
      if opens.history ∧ ¬ entry.dumps then some st
      else some { st with append := some { entry := entry, opens := opens } }

/-- The stream writes more of the line, at the latest when it is closed. -/
def flush (flushed : Flushed) (st : Store) : Option Store :=
  match st.append with
  | some a =>
      if a.opens.history ∧ a.flushed.rank < flushed.rank then
        let st := { st with append := some { a with flushed := flushed } }
        if flushed = .line then
          some { st with lines := st.lines ++ [st.tail ++ [.whole a.entry]], tail := [] }
        else some st
      else none
  | none => none

/-- `.cursor` is opened, which empties it. -/
def truncate (st : Store) : Option Store :=
  match st.append with
  | some a =>
      if a.opens.cursor ∧ a.cursorStage = .untouched then
        some { st with
          cursorFile := some []
          append := some { a with cursorStage := .truncated } }
      else none
  | none => none

def writeCursor (st : Store) : Option Store :=
  match st.append with
  | some a =>
      if a.cursorStage = .truncated then
        some { st with
          cursorFile := some (printInt a.entry.cursor)
          append := some { a with cursorStage := .written } }
      else none
  | none => none

/-- Both streams are closed. -/
def finish (st : Store) : Option Store :=
  match st.append with
  | some a =>
      if (a.opens.history = true → a.flushed = .line) ∧
          (a.opens.cursor = true → a.cursorStage = .written) then
        some { st with append := none }
      else none
  | none => none

/-- The process ends, and `.cursor` is left with any content. -/
def crash (cursorFile : Option Str) (st : Store) : Store :=
  { st with tail := st.openLine, cursorFile := cursorFile, append := none }

def step (st : Store) : Event → Option Store
  | .begin opens now event => begin opens now event st
  | .flush flushed => flush flushed st
  | .truncate => truncate st
  | .writeCursor => writeCursor st
  | .finish => finish st
  | .crash cursorFile => some (crash cursorFile st)

/-- A crash leaves a number in `.cursor` that no entry exceeds, an event that goes into the
history also opens `.cursor`, and the numbers do not run out. -/
def KeepsCursor (st : Store) : Event → Prop
  | .begin opens _ _ => opens.reads = true ∧ (opens.history = true → opens.cursor = true) ∧
      readCursor st.cursorFile < 2 ^ 31 - 1
  | .crash cursorFile => ∀ c ∈ st.cursors, c ≤ readCursor cursorFile
  | .flush _ | .truncate | .writeCursor | .finish => True

instance (st : Store) (e : Event) : Decidable (KeepsCursor st e) := by
  cases e <;> unfold KeepsCursor <;> infer_instance

/-- The cursors in the file increase from line to line. -/
def Increasing (st : Store) : Prop := st.cursors.Pairwise (· < ·)

instance (st : Store) : Decidable (Increasing st) := inferInstanceAs (Decidable (List.Pairwise ..))

/-! ## The invariant -/

/-- The cursors of the entries no `AppendEvent` is at work on. -/
def settled (st : Store) : List Int := cursorsOf (st.lines ++ [st.tail])

/-- How an `AppendEvent` stands to the entries before it. -/
structure Numbered (st : Store) (a : Append) : Prop where
  below : ∀ c ∈ settled st, c ≤ a.entry.cursor ∧ (a.flushed ≠ .line → c < a.entry.cursor)
  range : -2 ^ 31 ≤ a.entry.cursor ∧ a.entry.cursor < 2 ^ 31
  opens : a.opens.history = true → a.opens.cursor = true
  written : a.cursorStage = .written → st.cursorFile = some (printInt a.entry.cursor)
  touched : a.cursorStage ≠ .untouched → a.opens.cursor = true
  closed : a.opens.cursor = false → ∀ c ∈ settled st, c ≤ readCursor st.cursorFile

/-- The entries are in order, and the next number is above them. -/
structure Ordered (st : Store) : Prop where
  sorted : (settled st).Pairwise (· < ·)
  idle : st.append = none → ∀ c ∈ settled st, c ≤ readCursor st.cursorFile
  numbered : ∀ a, st.append = some a → Numbered st a

variable {st st' : Store} {a : Append}

theorem readLine_longer {tail : Line} (h : tail ≠ []) (piece : Piece) :
    readLine (tail ++ [piece]) = none := by
  obtain ⟨first, rest, rfl⟩ := List.exists_cons_of_ne_nil h
  cases first <;> cases rest <;> rfl

theorem cursorsOf_append (lines more : List Line) :
    cursorsOf (lines ++ more) = cursorsOf lines ++ cursorsOf more := by
  rw [cursorsOf, List.filterMap_append, List.map_append, cursorsOf, cursorsOf]

/-- What is written last is read alone, or nothing is read of its line. -/
theorem cursorsOf_longer (lines : List Line) (tail : Line) (piece : Piece) :
    (cursorsOf (lines ++ [tail ++ [piece]])).Sublist
      (cursorsOf (lines ++ [tail]) ++ cursorsOf [[piece]]) := by
  rw [cursorsOf_append, cursorsOf_append, List.append_assoc]
  refine (List.Sublist.refl _).append ?_
  by_cases h : tail = []
  · rw [h]
    exact List.Sublist.refl _
  · rw [cursorsOf, List.filterMap_cons, readLine_longer h]
    exact List.nil_sublist _

/-- The entry written last is the last one that is read, or none is read in its line. -/
theorem cursors_longer (lines : List Line) (tail : Line) (entry : HistoryEntry) :
    (cursorsOf (lines ++ [tail ++ [.whole entry]])).Sublist
      (cursorsOf (lines ++ [tail]) ++ [entry.cursor]) :=
  cursorsOf_longer lines tail (.whole entry)

theorem cursors_torn (lines : List Line) (tail : Line) :
    (cursorsOf (lines ++ [tail ++ [.torn]])).Sublist (cursorsOf (lines ++ [tail])) := by
  have hread := cursorsOf_longer lines tail .torn
  rwa [show cursorsOf [[Piece.torn]] = [] from rfl, List.append_nil] at hread

/-- With the entry under way the cursors are still in order. -/
theorem Ordered.longer (h : Ordered st) (hnum : Numbered st a) (hline : a.flushed ≠ .line) :
    (settled st ++ [a.entry.cursor]).Pairwise (· < ·) := by
  refine List.pairwise_append.mpr ⟨h.sorted, List.pairwise_singleton _ _, fun c hc d hd => ?_⟩
  rw [List.mem_singleton.mp hd]
  exact (hnum.below c hc).2 hline

theorem Ordered.increasing (h : Ordered st) : Increasing st := by
  unfold Increasing Store.cursors Store.readAllEntries Store.openLine
  cases happend : st.append with
  | none =>
      rw [Option.map_none, Option.getD_none, List.append_nil]
      exact h.sorted
  | some a =>
      rw [Option.map_some, Option.getD_some]
      cases hflushed : a.flushed with
      | nothing =>
          rw [Flushed.pieces, List.append_nil]
          exact h.sorted
      | part => exact h.sorted.sublist (cursors_torn st.lines st.tail)
      | text =>
          have hline : a.flushed ≠ .line := by
            rw [hflushed]
            nofun
          exact (h.longer (h.numbered a happend) hline).sublist
            (cursors_longer st.lines st.tail a.entry)
      | line =>
          rw [Flushed.pieces, List.append_nil]
          exact h.sorted

/-! ## Each step keeps it -/

/-- An `AppendEvent` is at work, and no complete line is added. -/
theorem Ordered.at_work (h : Ordered st) (hsettled : settled st' = settled st)
    (happend : st'.append = some a) (hnum : Numbered st' a) : Ordered st' where
  sorted := by
    rw [hsettled]
    exact h.sorted
  idle hidle := by
    rw [happend] at hidle
    cases hidle
  numbered a' ha' := by
    rw [happend] at ha'
    cases ha'
    exact hnum

theorem Ordered.begin (h : Ordered st) {opens : Opens} {now : Str} {event : MemoryEvent}
    (hok : KeepsCursor st (.begin opens now event))
    (hstep : HistoryStore.begin opens now event st = some st') : Ordered st' := by
  obtain ⟨hreads, hopens, hmax⟩ := hok
  unfold HistoryStore.begin at hstep
  split at hstep
  · cases hstep
  · rename_i hidle
    simp only [hreads, if_true] at hstep
    split at hstep
    · cases hstep
      exact h
    · cases hstep
      have hbefore := h.idle hidle
      have hrange := readCursor_range st.cursorFile
      have hnext := nextCursor_eq hrange.1 hmax
      refine h.at_work rfl rfl ⟨fun c hc => ?_, ?_, hopens, nofun,
        fun htouched => absurd rfl htouched, fun _ => hbefore⟩
      · have hle := hbefore c hc
        simp only [entryOf, hnext]
        omega
      · simp only [entryOf, hnext]
        omega

theorem Ordered.flush (h : Ordered st) {flushed : Flushed}
    (hstep : HistoryStore.flush flushed st = some st') : Ordered st' := by
  unfold HistoryStore.flush at hstep
  split at hstep
  · rename_i a happend
    have hnum := h.numbered a happend
    split at hstep
    · rename_i hflush
      have hcursor := hnum.opens hflush.1
      have hline : a.flushed ≠ .line := by
        intro hline
        have hrank := hflush.2
        rw [hline] at hrank
        cases flushed <;> exact absurd hrank (by decide)
      split at hstep
      · rename_i hlast
        cases hstep
        -- The open line becomes a complete one, with nothing behind it.
        have hsettled : (cursorsOf ((st.lines ++ [st.tail ++ [.whole a.entry]]) ++ [[]])).Sublist
            (settled st ++ [a.entry.cursor]) := by
          rw [cursorsOf_append]
          exact (List.append_nil _).symm ▸ cursors_longer st.lines st.tail a.entry
        refine ⟨(h.longer hnum hline).sublist hsettled, nofun, fun a' ha' => ?_⟩
        cases ha'
        refine ⟨fun c hc => ⟨?_, fun hne => absurd hlast hne⟩, hnum.range, hnum.opens, hnum.written,
          hnum.touched, fun hclosed => ?_⟩
        · rcases List.mem_append.mp (hsettled.subset hc) with hc | hc
          · exact (hnum.below c hc).1
          · exact le_of_eq (List.mem_singleton.mp hc)
        · exact absurd hcursor (by rw [hclosed]; nofun)
      · cases hstep
        exact h.at_work rfl rfl
          ⟨fun c hc => ⟨(hnum.below c hc).1, fun _ => (hnum.below c hc).2 hline⟩, hnum.range,
            hnum.opens, hnum.written, hnum.touched, hnum.closed⟩
    · cases hstep
  · cases hstep

theorem Ordered.truncate (h : Ordered st) (hstep : HistoryStore.truncate st = some st') :
    Ordered st' := by
  unfold HistoryStore.truncate at hstep
  split at hstep
  · rename_i a happend
    have hnum := h.numbered a happend
    obtain ⟨hopen, hstep⟩ := Option.ite_none_right_eq_some.mp hstep
    cases hstep
    exact h.at_work rfl rfl ⟨hnum.below, hnum.range, hnum.opens, nofun, fun _ => hopen.1,
      fun hclosed => absurd hopen.1 (by rw [hclosed]; nofun)⟩
  · cases hstep

theorem Ordered.writeCursor (h : Ordered st) (hstep : HistoryStore.writeCursor st = some st') :
    Ordered st' := by
  unfold HistoryStore.writeCursor at hstep
  split at hstep
  · rename_i a happend
    have hnum := h.numbered a happend
    obtain ⟨hstage, hstep⟩ := Option.ite_none_right_eq_some.mp hstep
    cases hstep
    have hopen : a.opens.cursor = true := hnum.touched (by rw [hstage]; nofun)
    exact h.at_work rfl rfl ⟨hnum.below, hnum.range, hnum.opens, fun _ => rfl, fun _ => hopen,
      fun hclosed => absurd hopen (by rw [hclosed]; nofun)⟩
  · cases hstep

theorem Ordered.finish (h : Ordered st) (hstep : HistoryStore.finish st = some st') :
    Ordered st' := by
  unfold HistoryStore.finish at hstep
  split at hstep
  · rename_i a happend
    have hnum := h.numbered a happend
    obtain ⟨hdone, hstep⟩ := Option.ite_none_right_eq_some.mp hstep
    cases hstep
    refine ⟨h.sorted, fun _ c hc => ?_, nofun⟩
    cases hopen : a.opens.cursor with
    | false => exact hnum.closed hopen c hc
    | true =>
        have hfile := hnum.written (hdone.2 hopen)
        rw [hfile, readCursor_printInt hnum.range.1 hnum.range.2]
        exact (hnum.below c hc).1
  · cases hstep

theorem Ordered.crash (h : Ordered st) {cursorFile : Option Str}
    (hok : KeepsCursor st (.crash cursorFile)) : Ordered (HistoryStore.crash cursorFile st) :=
  ⟨h.increasing, fun _ => hok, nofun⟩

theorem Ordered.step (h : Ordered st) {e : Event} (hok : KeepsCursor st e)
    (hstep : HistoryStore.step st e = some st') : Ordered st' := by
  cases e with
  | begin opens now event => exact h.begin hok hstep
  | flush flushed => exact h.flush hstep
  | truncate => exact h.truncate hstep
  | writeCursor => exact h.writeCursor hstep
  | finish => exact h.finish hstep
  | crash cursorFile =>
      cases hstep
      exact h.crash hok

/-! ## Runs -/

theorem ordered_new : Ordered {} := ⟨List.Pairwise.nil, fun _ => nofun, nofun⟩

/-- As long as no crash loses the last number, the cursors in the history increase. -/
theorem increasing_of_keepsCursor {st : Store} (h : Run step KeepsCursor {} st) :
    Increasing st :=
  (h.invariant ordered_new fun _ _ _ hordered hok hstep => hordered.step hok hstep).increasing

/-- While the cursors increase, the entries behind a processed one are not skipped. -/
theorem Increasing.unprocessed (h : Increasing st) {old new : List HistoryEntry}
    {last : HistoryEntry} (hsplit : st.readAllEntries = old ++ last :: new) :
    st.readUnprocessedHistory last.cursor = new := by
  rw [Increasing, Store.cursors, hsplit, List.pairwise_map, List.pairwise_append,
    List.pairwise_cons] at h
  obtain ⟨_, ⟨hnew, _⟩, hold⟩ := h
  have hskipped : old.filter (fun entry => ¬ entry.cursor ≤ last.cursor) = [] := by
    refine List.filter_eq_nil_iff.mpr fun entry hentry => ?_
    have hlt := hold entry hentry last List.mem_cons_self
    simpa using le_of_lt hlt
  have hkept : new.filter (fun entry => ¬ entry.cursor ≤ last.cursor) = new := by
    refine List.filter_eq_self.mpr fun entry hentry => ?_
    simpa using hnew entry hentry
  rw [Store.readUnprocessedHistory, hsplit, List.filter_append, hskipped, List.nil_append,
    List.filter_cons_of_neg (by simp), hkept]

/-- A crash between truncating and writing `.cursor` starts the numbers again. -/
theorem cursors_start_again : ¬ ∀ st, Run step AnyStep {} st → Increasing st := by
  intro h
  obtain ⟨st, hrun, hnot⟩ := exists_run_of_any step AnyStep {}
    (p := fun st => ¬ Increasing st)
    [.begin {} (lit "t") { role := Role.user }, .truncate, .writeCursor, .flush .line, .finish,
      .begin {} (lit "t") { role := Role.user }, .truncate, .crash (some []),
      .begin {} (lit "t") { role := Role.user }, .truncate, .writeCursor, .flush .line]
    (by decide +kernel)
  exact hnot (h st hrun)

/-- A crash before `.cursor` is truncated costs the entry that is written behind the torn
one, and no more. -/
theorem increasing_after_crash : ∃ st, Run step KeepsCursor {} st ∧ st.cursors = [1, 3] ∧
    Increasing st := by
  obtain ⟨st, hrun, hcursors⟩ := exists_run_of_any step KeepsCursor {}
    (p := fun st => st.cursors = [1, 3])
    [.begin {} (lit "t") { role := Role.user }, .truncate, .writeCursor, .flush .line, .finish,
      .begin {} (lit "t") { role := Role.user }, .flush .part, .crash (some (lit "1")),
      .begin {} (lit "t") { role := Role.user }, .truncate, .writeCursor, .flush .line, .finish,
      .begin {} (lit "t") { role := Role.user }, .truncate, .writeCursor, .flush .line, .finish]
    (by decide +kernel)
  exact ⟨st, hrun, hcursors, increasing_of_keepsCursor hrun⟩

end JiuwenCore.HistoryStore
