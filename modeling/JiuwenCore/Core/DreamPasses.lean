import JiuwenCore.Core.DreamFailures
import JiuwenCore.Lib.LogReaders

/-!
# Passes over a shared history

The consolidation loops of all agents share one `HistoryStore`, and the sessions append to it
meanwhile. The store locks each of its operations, a pass is three of them: it reads the
dream cursor, reads the history behind it, and stores the cursor of its last entry.
-/

namespace JiuwenCore.Dream

open HistoryStore (HistoryEntry MemoryEvent Store appendEvent entryOf nextCursor readCursor)
open LogReaders (Span Log Reader)

/-! ## The system -/

/-- A pass that has read the history: the cursor it has read before, and the entries it gives
to Phase 1. -/
structure Pass where
  number : Nat
  lastCursor : Int
  batch : List HistoryEntry
  deriving DecidableEq, Repr

inductive Stage where
  | waiting
  | cursorRead (number : Nat) (lastCursor : Int)
  | analysing (pass : Pass)
  deriving DecidableEq, Repr

def Stage.pass? : Stage → Option Pass
  | waiting | cursorRead _ _ => none
  | analysing pass => some pass

/-- The loop of one agent. -/
structure Loop where
  config : DreamConfig
  stage : Stage := .waiting
  deriving DecidableEq, Repr

structure System where
  store : DreamStore
  loops : List Loop
  /-- How many passes have begun, and how many have ended. -/
  begun : Nat := 0
  ended : Nat := 0
  /-- The passes that have called Phase 1, and those that have stored their cursor. -/
  given : List Pass := []
  completed : List Pass := []
  /-- The cursors that were stored. -/
  cursors : List Int := []
  deriving DecidableEq, Repr

inductive Event where
  | append (now : Str) (event : MemoryEvent)
  /-- An agent is built, beside those that still run. -/
  | reload (config : DreamConfig)
  | begin (i : Nat)
  | read (i : Nat)
  | complete (i : Nat)
  /-- A call of the model throws. -/
  | throws (i : Nat)
  deriving DecidableEq, Repr

/-- Cursors are `int`s, and a batch has an entry; the source is undefined otherwise. -/
def step (s : System) : Event → Option System
  | .append now event =>
      if readCursor s.store.history.cursorFile < 2 ^ 31 - 1 then
        match appendEvent now event s.store.history with
        | some history => some { s with store := { s.store with history := history } }
        | none => some s
      else none
  | .reload config => some { s with loops := s.loops ++ [{ config := config }] }
  | .begin i =>
      match s.loops[i]? with
      | some ⟨config, .waiting⟩ =>
          some { s with
            loops := s.loops.set i ⟨config, .cursorRead s.begun s.store.getLastDreamCursor⟩
            begun := s.begun + 1 }
      | _ => none
  | .read i =>
      match s.loops[i]? with
      | some ⟨config, .cursorRead number lastCursor⟩ =>
          let entries := s.store.history.readUnprocessedHistory lastCursor
          if entries = [] then
            some { s with loops := s.loops.set i ⟨config, .waiting⟩, ended := s.ended + 1 }
          else if batchOf config entries = [] then none
          else
            let pass : Pass := ⟨number, lastCursor, batchOf config entries⟩
            some { s with
              loops := s.loops.set i ⟨config, .analysing pass⟩
              given := s.given ++ [pass] }
      | _ => none
  | .complete i =>
      match s.loops[i]? with
      | some ⟨config, .analysing pass⟩ =>
          match pass.batch.getLast? with
          | some last =>
              some { s with
                store := s.store.setLastDreamCursor last.cursor
                loops := s.loops.set i ⟨config, .waiting⟩
                ended := s.ended + 1
                completed := s.completed ++ [pass]
                cursors := s.cursors ++ [last.cursor] }
          | none => none
      | _ => none
  | .throws i =>
      match s.loops[i]? with
      | some ⟨config, .analysing _⟩ =>
          some { s with loops := s.loops.set i ⟨config, .waiting⟩, ended := s.ended + 1 }
      | _ => none

/-- Everything a step can do. -/
inductive Step (s : System) : Event → System → Prop
  | append {now : Str} {event : MemoryEvent} {history : Store}
      (hroom : readCursor s.store.history.cursorFile < 2 ^ 31 - 1)
      (happend : appendEvent now event s.store.history = some history) :
      Step s (.append now event) { s with store := { s.store with history := history } }
  | refused {now : Str} {event : MemoryEvent} : Step s (.append now event) s
  | reload (config : DreamConfig) :
      Step s (.reload config) { s with loops := s.loops ++ [{ config := config }] }
  | begin {i : Nat} {config : DreamConfig} (hi : s.loops[i]? = some ⟨config, .waiting⟩) :
      Step s (.begin i) { s with
        loops := s.loops.set i ⟨config, .cursorRead s.begun s.store.getLastDreamCursor⟩
        begun := s.begun + 1 }
  | nothing {i number : Nat} {config : DreamConfig} {lastCursor : Int}
      (hi : s.loops[i]? = some ⟨config, .cursorRead number lastCursor⟩)
      (hnone : s.store.history.readUnprocessedHistory lastCursor = []) :
      Step s (.read i) { s with
        loops := s.loops.set i ⟨config, .waiting⟩
        ended := s.ended + 1 }
  | read {i number : Nat} {config : DreamConfig} {lastCursor : Int} {batch : List HistoryEntry}
      (hi : s.loops[i]? = some ⟨config, .cursorRead number lastCursor⟩)
      (hbatch : batch = batchOf config (s.store.history.readUnprocessedHistory lastCursor))
      (hsome : batch ≠ []) :
      Step s (.read i) { s with
        loops := s.loops.set i ⟨config, .analysing ⟨number, lastCursor, batch⟩⟩
        given := s.given ++ [⟨number, lastCursor, batch⟩] }
  | complete {i : Nat} {config : DreamConfig} {pass : Pass} {last : HistoryEntry}
      (hi : s.loops[i]? = some ⟨config, .analysing pass⟩)
      (hlast : pass.batch.getLast? = some last) :
      Step s (.complete i) { s with
        store := s.store.setLastDreamCursor last.cursor
        loops := s.loops.set i ⟨config, .waiting⟩
        ended := s.ended + 1
        completed := s.completed ++ [pass]
        cursors := s.cursors ++ [last.cursor] }
  | throws {i : Nat} {config : DreamConfig} {pass : Pass}
      (hi : s.loops[i]? = some ⟨config, .analysing pass⟩) :
      Step s (.throws i) { s with
        loops := s.loops.set i ⟨config, .waiting⟩
        ended := s.ended + 1 }

theorem step_spec {s s' : System} {e : Event} (h : step s e = some s') : Step s e s' := by
  cases e with
  | append now event =>
      simp only [step] at h
      split at h
      · rename_i hroom
        split at h
        · rename_i history happend
          cases h
          exact .append hroom happend
        · cases h
          exact .refused
      · cases h
  | reload config =>
      cases h
      exact .reload config
  | begin i =>
      simp only [step] at h
      split at h
      · rename_i hi
        cases h
        exact .begin hi
      · cases h
  | read i =>
      simp only [step] at h
      split at h
      · rename_i hi
        split at h
        · rename_i hnone
          cases h
          exact .nothing hi hnone
        · split at h
          · cases h
          · rename_i hsome
            cases h
            exact .read hi rfl hsome
      · cases h
  | complete i =>
      simp only [step] at h
      split at h
      · rename_i hi
        split at h
        · rename_i hlast
          cases h
          exact .complete hi hlast
        · cases h
      · cases h
  | throws i =>
      simp only [step] at h
      split at h
      · rename_i hi
        cases h
        exact .throws hi
      · cases h

theorem set_waiting {s : System} {i : Nat} {config : DreamConfig}
    (hi : s.loops[i]? = some ⟨config, .waiting⟩) : s.loops.set i ⟨config, .waiting⟩ = s.loops := by
  apply List.ext_getElem?
  intro j
  by_cases hj : i = j
  · rw [← hj, hi, List.getElem?_set_self (List.getElem?_eq_some_iff.mp hi).1]
  · rw [List.getElem?_set_ne hj]

/-- A pass that has a batch comes to the calls of the model. -/
theorem exists_analysing {s : System} {i : Nat} {config : DreamConfig}
    (hi : s.loops[i]? = some ⟨config, .waiting⟩) (hsome : s.store.unprocessed ≠ [])
    (hbatch : batchOf config s.store.unprocessed ≠ []) : ∃ t,
      (∀ events, runEvents step AnyStep s (.begin i :: .read i :: events) =
        runEvents step AnyStep t events) ∧
      t.loops[i]? = some ⟨config, .analysing ⟨s.begun, s.store.getLastDreamCursor,
        batchOf config s.store.unprocessed⟩⟩ ∧
      t.store = s.store ∧ t.loops.set i ⟨config, .waiting⟩ = s.loops := by
  have hlt : i < s.loops.length := (List.getElem?_eq_some_iff.mp hi).1
  let begun : System := { s with
    loops := s.loops.set i ⟨config, .cursorRead s.begun s.store.getLastDreamCursor⟩
    begun := s.begun + 1 }
  have hbegin : step s (.begin i) = some begun := by
    simp only [step, hi]
    rfl
  have hbegun : begun.loops[i]? =
      some ⟨config, .cursorRead s.begun s.store.getLastDreamCursor⟩ :=
    List.getElem?_set_self hlt
  let pass : Pass := ⟨s.begun, s.store.getLastDreamCursor, batchOf config s.store.unprocessed⟩
  let reading : System := { begun with
    loops := begun.loops.set i ⟨config, .analysing pass⟩
    given := s.given ++ [pass] }
  have hread : step begun (.read i) = some reading := by
    simp only [step, hbegun]
    exact (if_neg hsome).trans (if_neg hbatch)
  refine ⟨reading, fun events => ?_, ?_, rfl, ?_⟩
  · simp only [runEvents, AnyStep, if_true, hbegin, hread, Option.bind_some]
  · apply List.getElem?_set_self
    rw [List.length_set]
    exact hlt
  · rw [← set_waiting hi]
    exact (List.set_set ..).trans (List.set_set ..)

/-- A whole pass is its steps, with none of another in between. -/
theorem run_steps {σ : Type} {config : DreamConfig} {tools : FileTools σ} {answers : Answers}
    {now : Str} {fuel : Nat} {files : σ} {ended : PassEnd σ} {s : System} {i : Nat}
    (hi : s.loops[i]? = some ⟨config, .waiting⟩)
    (h : run config tools answers now fuel files s.store = some ended) :
    ∃ events s', runEvents step AnyStep s (.begin i :: .read i :: events) = some s' ∧
      s'.store = ended.store ∧ s'.loops = s.loops ∧
        (events = [] ∨ events = [.complete i] ∨ events = [.throws i]) := by
  have hlt : i < s.loops.length := (List.getElem?_eq_some_iff.mp hi).1
  by_cases hnone : s.store.unprocessed = []
  · simp only [run, if_pos hnone] at h
    cases h
    have hstill : s.store.history.readUnprocessedHistory s.store.getLastDreamCursor = [] := hnone
    refine ⟨[], { s with
      loops := (s.loops.set i ⟨config, .cursorRead s.begun s.store.getLastDreamCursor⟩).set i
        ⟨config, .waiting⟩
      begun := s.begun + 1
      ended := s.ended + 1 }, ?_, rfl, (List.set_set ..).trans (set_waiting hi), .inl rfl⟩
    simp only [runEvents, AnyStep, if_true, step, hi, Option.bind_some,
      List.getElem?_set_self hlt, hstill]
  · cases hlast : (batchOf config s.store.unprocessed).getLast? with
    | none =>
        simp only [run, if_neg hnone, hlast] at h
        cases h
    | some last =>
        have hbatch : batchOf config s.store.unprocessed ≠ [] := by
          intro hnil
          rw [hnil] at hlast
          cases hlast
        obtain ⟨t, hrun, ht, hsame, hloops⟩ := exists_analysing hi hnone hbatch
        rcases run_spec hlast hnone h with hstore | ⟨hstore, _⟩
        · refine ⟨[.throws i], { t with
            loops := t.loops.set i ⟨config, .waiting⟩
            ended := t.ended + 1 }, ?_, hsame.trans hstore.symm, hloops, .inr (.inr rfl)⟩
          rw [hrun]
          simp only [runEvents, AnyStep, if_true, step, ht, Option.bind_some]
        · refine ⟨[.complete i], { t with
            store := t.store.setLastDreamCursor last.cursor
            loops := t.loops.set i ⟨config, .waiting⟩
            ended := t.ended + 1
            completed := t.completed ++ [⟨s.begun, s.store.getLastDreamCursor,
              batchOf config s.store.unprocessed⟩]
            cursors := t.cursors ++ [last.cursor] }, ?_, ?_, hloops, .inr (.inl rfl)⟩
          · rw [hrun]
            simp only [runEvents, AnyStep, if_true, step, ht, hlast, Option.bind_some]
          · rw [hstore, ← hsame]

/-! ## Numbered histories -/

/-- No append has been cut off, the lines are numbered from 1 on, the last number is stored, and
the dream cursor is one of them or 0. -/
structure Intact (d : DreamStore) : Prop where
  idle : d.history.append = none
  complete : d.history.tail = []
  numbered : ∀ (k : Nat) entry, d.history.readAllEntries[k]? = some entry → entry.cursor = k + 1
  count : readCursor d.history.cursorFile = d.history.readAllEntries.length
  processed : 0 ≤ d.getLastDreamCursor ∧
    d.getLastDreamCursor ≤ d.history.readAllEntries.length

/-- In numbered entries, those behind a cursor are the last ones. -/
theorem filter_numbered {entries : List HistoryEntry} {first : Int}
    (h : ∀ (k : Nat) entry, entries[k]? = some entry → entry.cursor = first + k) {c : Int}
    (hc : first - 1 ≤ c) :
    entries.filter (fun entry => ¬ entry.cursor ≤ c) = entries.drop (c + 1 - first).toNat := by
  induction entries generalizing first with
  | nil => simp
  | cons head rest ih =>
      have hhead := h 0 head rfl
      have hrest : ∀ (k : Nat) entry, rest[k]? = some entry → entry.cursor = first + 1 + k := by
        intro k entry hk
        have hnext := h (k + 1) entry hk
        push_cast at hnext
        omega
      by_cases hle : head.cursor ≤ c
      · have hdrop : (c + 1 - first).toNat = (c + 1 - (first + 1)).toNat + 1 := by omega
        rw [List.filter_cons_of_neg (by simpa using hle), hdrop, List.drop_succ_cons]
        apply ih hrest
        omega
      · have hkept : ∀ entry ∈ rest, (¬ entry.cursor ≤ c) = true := by
          intro entry hentry
          obtain ⟨k, hk⟩ := List.mem_iff_getElem?.mp hentry
          have hcursor := hrest k entry hk
          simp only [eq_iff_iff, iff_true]
          omega
        have hdrop : (c + 1 - first).toNat = 0 := by omega
        rw [hdrop, List.drop_zero]
        apply List.filter_eq_self.mpr
        intro entry hentry
        rcases List.mem_cons.mp hentry with rfl | hentry
        · simpa using hle
        · have := hkept entry hentry
          simpa using this

theorem Intact.unprocessed {d : DreamStore} (h : Intact d) {c : Int} (hc : 0 ≤ c) :
    d.history.readUnprocessedHistory c = d.history.readAllEntries.drop c.toNat := by
  have hnumbered : ∀ (k : Nat) entry, d.history.readAllEntries[k]? = some entry →
      entry.cursor = 1 + k := by
    intro k entry hk
    have hcursor := h.numbered k entry hk
    omega
  have hfilter := filter_numbered hnumbered (c := c) (by omega)
  rw [show c + 1 - 1 = c by omega] at hfilter
  exact hfilter

theorem Intact.length_lt {d : DreamStore} (h : Intact d) :
    (d.history.readAllEntries.length : Int) < 2 ^ 31 :=
  h.count ▸ (HistoryStore.readCursor_range _).2

/-- An append adds one entry, with the next number. -/
theorem Intact.append {d : DreamStore} (h : Intact d) {now : Str} {event : MemoryEvent}
    {history : Store} (hroom : readCursor d.history.cursorFile < 2 ^ 31 - 1)
    (happend : appendEvent now event d.history = some history) :
    (∃ entry, history.readAllEntries = d.history.readAllEntries ++ [entry]) ∧
      Intact { d with history := history } := by
  have hrange := HistoryStore.readCursor_range d.history.cursorFile
  have hcount := h.count
  have hnext : nextCursor (readCursor d.history.cursorFile) =
      d.history.readAllEntries.length + 1 := by
    rw [HistoryStore.nextCursor_eq hrange.1 hroom, hcount]
  rcases HistoryStore.appendEvent_spec h.idle h.complete happend with
    ⟨hall, hidle, htail, hcursorFile⟩
  refine ⟨⟨_, hall⟩, hidle, htail, fun k entry hk => ?_, ?_, ?_⟩
  · dsimp only at hk
    rw [hall] at hk
    rcases Nat.lt_trichotomy k d.history.readAllEntries.length with hlt | heq | hgt
    · rw [List.getElem?_append_left hlt] at hk
      exact h.numbered k entry hk
    · rw [heq, List.getElem?_concat_length] at hk
      cases hk
      rw [heq]
      exact hnext
    · rw [List.getElem?_eq_none] at hk
      · cases hk
      · rw [List.length_append, List.length_singleton]
        omega
  · dsimp only
    rw [hcursorFile, hall, hnext, List.length_append, List.length_singleton]
    push_cast
    apply HistoryStore.readCursor_printInt
    · omega
    · omega
  · have hprocessed := h.processed
    dsimp only
    rw [hall, List.length_append, List.length_singleton]
    refine ⟨hprocessed.1, le_trans hprocessed.2 ?_⟩
    push_cast
    omega

/-! ## The positions a pass is about -/

/-- Where its batch lies in the history. -/
def Pass.span (pass : Pass) : Span where
  start := pass.lastCursor.toNat
  stop := pass.lastCursor.toNat + pass.batch.length

/-- The batch of the pass is what the history has at these positions. -/
structure Pass.Reads (items : List HistoryEntry) (pass : Pass) : Prop where
  nonneg : 0 ≤ pass.lastCursor
  nonempty : pass.batch ≠ []
  within : pass.span.stop ≤ items.length
  batch : pass.span.slice items = pass.batch

def Stage.Reads (items : List HistoryEntry) : Stage → Prop
  | waiting => True
  | cursorRead _ lastCursor => 0 ≤ lastCursor
  | analysing pass => pass.Reads items

theorem Pass.Reads.proper {items : List HistoryEntry} {pass : Pass} (h : pass.Reads items) :
    pass.span.start < pass.span.stop :=
  Nat.lt_add_of_pos_right (List.length_pos_iff.mpr h.nonempty)

theorem Pass.Reads.mono {items more : List HistoryEntry} {pass : Pass} (h : pass.Reads items) :
    pass.Reads (items ++ more) where
  nonneg := h.nonneg
  nonempty := h.nonempty
  within := by
    rw [List.length_append]
    exact le_trans h.within (Nat.le_add_right _ _)
  batch := by
    have hwithin := h.within
    have hproper := h.proper
    rw [← h.batch, Span.slice, Span.slice, List.drop_append_of_le_length (by omega)]
    apply List.take_append_of_le_length
    rw [List.length_drop]
    omega

/-- The cursor that is stored at the end is the position behind the batch. -/
theorem Pass.Reads.last {items : List HistoryEntry} {pass : Pass} (h : pass.Reads items)
    (hnumbered : ∀ (k : Nat) entry, items[k]? = some entry → entry.cursor = k + 1)
    {last : HistoryEntry} (hlast : pass.batch.getLast? = some last) :
    last.cursor = pass.span.stop := by
  have hproper := h.proper
  have hstop : pass.span.stop = pass.span.start + pass.batch.length := rfl
  have hat : items[pass.span.stop - 1]? = some last := by
    rw [List.getLast?_eq_getElem?, ← h.batch, Span.slice, List.getElem?_take, List.length_take,
      List.length_drop, List.getElem?_drop] at hlast
    have hwithin := h.within
    have hlength : min (pass.span.stop - pass.span.start) (items.length - pass.span.start) =
        pass.batch.length := by omega
    rw [hlength] at hlast
    have hindex : pass.span.start + (pass.batch.length - 1) = pass.span.stop - 1 := by omega
    rw [hindex] at hlast
    exact (Option.ite_none_right_eq_some.mp hlast).2
  have hcursor := hnumbered _ _ hat
  omega

/-- What a pass stores is read back as the position behind its batch. -/
theorem Pass.Reads.stored {d : DreamStore} {pass : Pass}
    (h : pass.Reads d.history.readAllEntries) (hd : Intact d) {last : HistoryEntry}
    (hlast : pass.batch.getLast? = some last) :
    (d.setLastDreamCursor last.cursor).getLastDreamCursor = pass.span.stop := by
  have hstop := h.last hd.numbered hlast
  have hwithin := h.within
  have hlength := hd.length_lt
  rw [← hstop]
  apply HistoryStore.readCursor_printInt
  · omega
  · omega

/-- An entry of the batch, and its place in the history. -/
theorem Pass.Reads.mem_iff {items : List HistoryEntry} {pass : Pass} (h : pass.Reads items)
    {entry : HistoryEntry} :
    entry ∈ pass.batch ↔ ∃ k, pass.span.Holds k ∧ items[k]? = some entry := by
  rw [← h.batch, List.mem_iff_getElem?]
  constructor
  · rintro ⟨n, hn⟩
    rw [Span.slice, List.getElem?_take, List.getElem?_drop] at hn
    obtain ⟨hlt, hn⟩ := Option.ite_none_right_eq_some.mp hn
    refine ⟨pass.span.start + n, ⟨?_, ?_⟩, hn⟩
    · omega
    · omega
  · rintro ⟨k, ⟨hstart, hstop⟩, hk⟩
    refine ⟨k - pass.span.start, ?_⟩
    rw [Span.slice, List.getElem?_take, List.getElem?_drop, if_pos (by omega),
      show pass.span.start + (k - pass.span.start) = k by omega]
    exact hk

/-- A batch is a first part of what is not processed. -/
theorem batchOf_take (config : DreamConfig) (entries : List HistoryEntry) :
    batchOf config entries = entries.take (batchOf config entries).length := by
  rw [batchOf, List.length_take]
  exact (List.take_eq_take_min ..)

theorem Intact.reads {d : DreamStore} (h : Intact d) {config : DreamConfig} (number : Nat)
    {lastCursor : Int} (hc : 0 ≤ lastCursor) {batch : List HistoryEntry}
    (hbatch : batch = batchOf config (d.history.readUnprocessedHistory lastCursor))
    (hsome : batch ≠ []) : Pass.Reads d.history.readAllEntries ⟨number, lastCursor, batch⟩ where
  nonneg := hc
  nonempty := hsome
  within := by
    have hlength := List.length_pos_iff.mpr hsome
    have hle : batch.length ≤ (d.history.readAllEntries.drop lastCursor.toNat).length := by
      rw [hbatch, h.unprocessed hc]
      exact List.length_take_le' _ _
    rw [List.length_drop] at hle
    dsimp only [Pass.span]
    omega
  batch := by
    have htake := batchOf_take config (d.history.readUnprocessedHistory lastCursor)
    rw [← hbatch, h.unprocessed hc] at htake
    dsimp only [Pass.span, Span.slice]
    rw [Nat.add_sub_cancel_left]
    exact htake.symm

/-! ## The invariant -/

/-- Every pass has read a part of the history as it is. -/
structure Tracks (s : System) : Prop where
  intact : Intact s.store
  loops : ∀ loop ∈ s.loops, loop.stage.Reads s.store.history.readAllEntries
  given : ∀ pass ∈ s.given, pass.Reads s.store.history.readAllEntries
  completed : ∀ pass ∈ s.completed, pass.Reads s.store.history.readAllEntries
  cursors : s.cursors = s.completed.map fun pass => (pass.span.stop : Int)

/-- No pass is under way, and none has been. -/
structure New (s : System) : Prop where
  intact : Intact s.store
  waiting : ∀ loop ∈ s.loops, loop.stage = .waiting
  given : s.given = []
  completed : s.completed = []
  cursors : s.cursors = []

theorem New.tracks {s : System} (h : New s) : Tracks s where
  intact := h.intact
  loops loop hloop := by
    rw [h.waiting loop hloop]
    trivial
  given pass hpass := by
    rw [h.given] at hpass
    cases hpass
  completed pass hpass := by
    rw [h.completed] at hpass
    cases hpass
  cursors := by
    rw [h.cursors, h.completed]
    rfl

theorem Stage.Reads.mono {items more : List HistoryEntry} {stage : Stage}
    (h : stage.Reads items) : stage.Reads (items ++ more) := by
  cases stage with
  | waiting => trivial
  | cursorRead number lastCursor => exact h
  | analysing pass => exact Pass.Reads.mono h

variable {s s' : System}

/-- A loop has come to another stage. -/
theorem Tracks.loops_set (h : Tracks s) {i : Nat} {loop : Loop}
    (hstage : loop.stage.Reads s.store.history.readAllEntries) :
    ∀ l ∈ s.loops.set i loop, l.stage.Reads s.store.history.readAllEntries := by
  intro l hl
  rcases List.mem_or_eq_of_mem_set hl with hl | rfl
  · exact h.loops l hl
  · exact hstage

theorem forall_mem_snoc {α : Type} {p : α → Prop} {l : List α} {a : α} (h : ∀ x ∈ l, p x)
    (ha : p a) : ∀ x ∈ l ++ [a], p x := by
  intro x hx
  rcases List.mem_append.mp hx with hx | hx
  · exact h x hx
  · rw [List.mem_singleton.mp hx]
    exact ha

theorem Tracks.step (h : Tracks s) {e : Event} (hstep : Dream.step s e = some s') : Tracks s' := by
  cases step_spec hstep with
  | append hroom happend =>
      rcases h.intact.append hroom happend with ⟨⟨entry, hall⟩, hintact⟩
      refine ⟨hintact, fun loop hloop => ?_, fun pass hpass => ?_, fun pass hpass => ?_, h.cursors⟩
      · exact hall ▸ (h.loops loop hloop).mono
      · exact hall ▸ (h.given pass hpass).mono
      · exact hall ▸ (h.completed pass hpass).mono
  | refused => exact h
  | reload config =>
      refine ⟨h.intact, ?_, h.given, h.completed, h.cursors⟩
      exact forall_mem_snoc h.loops trivial
  | begin hi =>
      refine ⟨h.intact, h.loops_set ?_, h.given, h.completed, h.cursors⟩
      exact h.intact.processed.1
  | nothing hi hnone => exact ⟨h.intact, h.loops_set trivial, h.given, h.completed, h.cursors⟩
  | @read i number config lastCursor batch hi hbatch hsome =>
      have hcursor : 0 ≤ lastCursor := h.loops _ (List.mem_of_getElem? hi)
      have hreads := h.intact.reads number hcursor hbatch hsome
      refine ⟨h.intact, h.loops_set hreads, ?_, h.completed, h.cursors⟩
      exact forall_mem_snoc h.given hreads
  | @complete i config pass last hi hlast =>
      have hreads : pass.Reads s.store.history.readAllEntries := h.loops _ (List.mem_of_getElem? hi)
      refine ⟨⟨h.intact.idle, h.intact.complete, h.intact.numbered, h.intact.count, ?_⟩,
        h.loops_set trivial, h.given, ?_, ?_⟩
      · rw [hreads.stored h.intact hlast]
        exact ⟨Int.natCast_nonneg _, Int.ofNat_le.mpr hreads.within⟩
      · exact forall_mem_snoc h.completed hreads
      · rw [h.cursors, hreads.last h.intact.numbered hlast, List.map_append]
        rfl
  | throws hi => exact ⟨h.intact, h.loops_set trivial, h.given, h.completed, h.cursors⟩

/-! ## Loops as readers of a log -/

def Stage.reader : Stage → Reader
  | waiting => .idle
  | cursorRead _ lastCursor => .noted lastCursor.toNat
  | analysing pass => .working pass.span

/-- The entries are the items, and the dream cursor is the position. -/
def System.log (s : System) : Log HistoryEntry where
  items := s.store.history.readAllEntries
  position := s.store.getLastDreamCursor.toNat
  readers := s.loops.map (·.stage.reader)
  taken := s.given.map (·.span)
  stored := s.completed.map (·.span)
  passes := s.ended

/-- `SetLastDreamCursor` finds the cursor that its pass has read. -/
def Unmoved (s : System) : Event → Prop
  | .complete i => ∀ loop ∈ s.loops[i]?, ∀ pass ∈ loop.stage.pass?,
      pass.lastCursor = s.store.getLastDreamCursor
  | _ => True

instance (s : System) (e : Event) : Decidable (Unmoved s e) := by
  cases e <;> unfold Unmoved <;> infer_instance

/-- A pass begins when no other is under way, and no call of the model throws. -/
def OneByOne (s : System) : Event → Prop
  | .begin _ => ∀ loop ∈ s.loops, loop.stage = .waiting
  | .throws _ => False
  | _ => True

instance (s : System) (e : Event) : Decidable (OneByOne s e) := by
  cases e <;> unfold OneByOne <;> infer_instance

theorem readers_at {i : Nat} {config : DreamConfig} {stage : Stage}
    (hi : s.loops[i]? = some ⟨config, stage⟩) : s.log.readers[i]? = some stage.reader := by
  rw [System.log, List.getElem?_map, hi]
  rfl

theorem New.fresh (h : New s) : LogReaders.Fresh s.log where
  idle r hr := by
    obtain ⟨loop, hloop, rfl⟩ := List.mem_map.mp hr
    rw [h.waiting loop hloop]
    rfl
  taken := by
    rw [System.log, h.given]
    rfl
  stored := by
    rw [System.log, h.completed]
    rfl
  within := by
    have hprocessed := h.intact.processed
    dsimp only [System.log]
    omega

/-- A step of the loops is a step of the readers, or none at all. -/
theorem Tracks.step_log (h : Tracks s) {e : Event} (hstep : Dream.step s e = some s') :
    (s' = s ∧ Unmoved s e) ∨ ∃ e', LogReaders.step s.log e' = some s'.log ∧
      (Unmoved s e ↔ LogReaders.Unmoved s.log e') ∧
      (OneByOne s e → LogReaders.InTurn s.log e') := by
  have hidle : (∀ loop ∈ s.loops, loop.stage = .waiting) → ∀ r ∈ s.log.readers, r = .idle := by
    intro hwaiting r hr
    obtain ⟨loop, hloop, rfl⟩ := List.mem_map.mp hr
    rw [hwaiting loop hloop]
    rfl
  cases step_spec hstep with
  | append hroom happend =>
      obtain ⟨entry, hall⟩ := (h.intact.append hroom happend).1
      refine .inr ⟨.append entry, ?_, Iff.rfl, fun _ => trivial⟩
      simp only [LogReaders.step, System.log, hall, DreamStore.getLastDreamCursor]
  | refused => exact .inl ⟨rfl, trivial⟩
  | reload config =>
      refine .inr ⟨.join, ?_, Iff.rfl, fun _ => trivial⟩
      simp only [LogReaders.step, System.log, List.map_append]
      rfl
  | @begin i config hi =>
      refine .inr ⟨.note i, ?_, Iff.rfl, hidle⟩
      simp only [LogReaders.step, readers_at hi, Stage.reader]
      simp only [System.log, List.map_set, Stage.reader]
  | @nothing i number config lastCursor hi hnone =>
      have hcursor : 0 ≤ lastCursor := h.loops _ (List.mem_of_getElem? hi)
      refine .inr ⟨.leave i, ?_, Iff.rfl, fun _ => ⟨lastCursor.toNat, readers_at hi, ?_⟩⟩
      · simp only [LogReaders.step, readers_at hi, Stage.reader]
        simp only [System.log, List.map_set, Stage.reader]
      · rw [h.intact.unprocessed hcursor] at hnone
        exact List.drop_eq_nil_iff.mp hnone
  | @read i number config lastCursor batch hi hbatch hsome =>
      have hcursor : 0 ≤ lastCursor := h.loops _ (List.mem_of_getElem? hi)
      have hreads := h.intact.reads number hcursor hbatch hsome
      refine .inr ⟨.take i batch.length, ?_, Iff.rfl, fun _ => trivial⟩
      have hwithin : lastCursor.toNat + batch.length ≤ s.log.items.length := hreads.within
      have hroom : 0 < batch.length ∧ lastCursor.toNat + batch.length ≤ s.log.items.length :=
        ⟨List.length_pos_iff.mpr hsome, hwithin⟩
      simp only [LogReaders.step, readers_at hi, Stage.reader, if_pos hroom]
      simp only [System.log, List.map_set, Stage.reader, List.map_append, Pass.span, List.map_cons,
        List.map_nil]
  | @complete i config pass last hi hlast =>
      have hreads : pass.Reads s.store.history.readAllEntries := h.loops _ (List.mem_of_getElem? hi)
      have hcursor := hreads.stored h.intact hlast
      refine .inr ⟨.store i, ?_, ?_, fun _ => trivial⟩
      · simp only [LogReaders.step, readers_at hi, Stage.reader]
        simp only [System.log, List.map_set, Stage.reader, List.map_append, hcursor,
          Int.toNat_natCast]
        rfl
      · have hstart : pass.span.start = s.log.position ↔
            pass.lastCursor = s.store.getLastDreamCursor := by
          have hnonneg := hreads.nonneg
          have hprocessed := h.intact.processed
          dsimp only [System.log, Pass.span]
          omega
        constructor
        · intro hunmoved span hspan
          rw [readers_at hi] at hspan
          cases hspan
          exact hstart.mpr (hunmoved _ hi pass rfl)
        · intro hunmoved loop hloop pass' hpass'
          rw [hi] at hloop
          cases hloop
          cases hpass'
          exact hstart.mp (hunmoved pass.span (readers_at hi))
  | @throws i config pass hi =>
      refine .inr ⟨.leave i, ?_, Iff.rfl, fun hthrows => hthrows.elim⟩
      simp only [LogReaders.step, readers_at hi, Stage.reader]
      simp only [System.log, List.map_set, Stage.reader]

/-- What a kind of steps of the loops is among the steps of the readers. -/
theorem Tracks.run_log {ok : System → Event → Prop}
    {ok' : Log HistoryEntry → LogReaders.Event HistoryEntry → Prop}
    (hok : ∀ s e e', ok s e → (Unmoved s e ↔ LogReaders.Unmoved s.log e') →
      (OneByOne s e → LogReaders.InTurn s.log e') → ok' s.log e')
    (htracks : Tracks s) (h : Run Dream.step ok s s') :
    Tracks s' ∧ Run LogReaders.step ok' s.log s'.log := by
  apply h.simulate System.log htracks
  intro s e s' htracks hmet hstep
  refine ⟨htracks.step hstep, ?_⟩
  rcases htracks.step_log hstep with ⟨rfl, _⟩ | ⟨e', hstep', hunmoved, hturn⟩
  · exact .start
  · exact .next .start (hok s e e' hmet hunmoved hturn) hstep'

theorem New.run_inTurn (hnew : New s) (h : Run Dream.step OneByOne s s') :
    Tracks s' ∧ Run LogReaders.step LogReaders.InTurn s.log s'.log :=
  hnew.tracks.run_log (fun _ _ _ hone _ hturn => hturn hone) h

theorem New.run_unmoved (hnew : New s) (h : Run Dream.step Unmoved s s') :
    Tracks s' ∧ Run LogReaders.step LogReaders.Unmoved s.log s'.log :=
  hnew.tracks.run_log (fun _ _ _ hunmoved hiff _ => hiff.mp hunmoved) h

theorem New.run_any (hnew : New s) (h : Run Dream.step AnyStep s s') :
    Tracks s' ∧ Run LogReaders.step AnyStep s.log s'.log :=
  hnew.tracks.run_log (fun _ _ _ _ _ _ => trivial) h

end JiuwenCore.Dream
