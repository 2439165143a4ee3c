import JiuwenCore.Lib.Changes
import JiuwenCore.Lib.Runs
import JiuwenCore.Text
import Mathlib.Logic.Function.Basic

/-!
# Watching files for changes

The loop of `ConfigWatcher` goes through its entries pass after pass. It compares the time of
each file with the one it has seen last, and calls back where they differ. The files change at
any moment, also between the look at the time and the call. A pass holds the lock that `Watch`
takes, so no entry is added in the middle of it.
-/

namespace JiuwenCore.ConfigWatcher

/-- `file_time_type::min()`, which stands for a file that was never seen. -/
def minTime : Int := -2 ^ 63

/-- A file as it stands at some moment. -/
structure Version where
  mtime : Int
  content : Str
  deriving DecidableEq, Repr

/-- An entry, with what has happened to it. -/
structure Entry where
  path : Str
  lastMtime : Int := minTime
  /-- The times the watcher has seen. -/
  sighted : List Int := []
  /-- The times at which it has called back. -/
  fired : List Int := []
  /-- The file was there when `Watch` was called. -/
  present : Bool
  /-- The file as the callback has found it last, or the program before it called `Watch`. -/
  read : Option Version
  /-- The last callback has thrown. -/
  threw : Bool := false
  deriving DecidableEq, Repr

/-- A time is seen; the second part says whether to call back. -/
def Entry.see (mtime : Int) (e : Entry) : Entry × Bool :=
  let seen := { e with lastMtime := mtime, sighted := e.sighted ++ [mtime] }
  if e.lastMtime = minTime then (seen, false)
  else if mtime ≠ e.lastMtime then ({ seen with fired := e.fired ++ [mtime] }, true)
  else (seen, false)

/-- The callback runs and reads the file, or throws. -/
def Entry.callback (returns : Bool) (current : Option Version) (e : Entry) : Entry :=
  if returns then { e with read := current, threw := false } else { e with threw := true }

/-- Where the loop stands: between two passes, in front of an entry, or about to call back. -/
inductive Phase where
  | idle
  | before (k : Nat)
  | firing (k : Nat)
  deriving DecidableEq, Repr

structure Watcher where
  files : Str → Option Version
  /-- The times the files have had. -/
  times : List (Str × Int) := []
  entries : List Entry := []
  phase : Phase := .idle

/-- The entry that `Watch` adds. -/
def Watcher.entryOf (w : Watcher) (path : Str) : Entry :=
  let e : Entry := { path := path, present := (w.files path).isSome, read := w.files path }
  match w.files path with
  | some version => (e.see version.mtime).1
  | none => e

inductive Event where
  /-- A file is written anew, or removed. -/
  | edit (path : Str) (version : Option Version)
  | watch (path : Str)
  | startPass
  /-- The loop looks at the next entry. -/
  | turn
  | callback (returns : Bool)

def step (w : Watcher) : Event → Option Watcher
  | .edit path version =>
      some { w with
        files := Function.update w.files path version
        times := w.times ++ (version.toList.map fun v => (path, v.mtime)) }
  | .watch path =>
      if w.phase = .idle then some { w with entries := w.entries ++ [w.entryOf path] } else none
  | .startPass => if w.phase = .idle then some { w with phase := .before 0 } else none
  | .turn =>
      match w.phase with
      | .before k =>
          match w.entries[k]? with
          | none => some { w with phase := .idle }
          | some e =>
              match w.files e.path with
              | none => some { w with phase := .before (k + 1) }
              | some version =>
                  let seen := e.see version.mtime
                  some { w with
                    entries := w.entries.set k seen.1
                    phase := if seen.2 then .firing k else .before (k + 1) }
      | _ => none
  | .callback returns =>
      match w.phase with
      | .firing k =>
          some { w with
            entries := w.entries.modify k fun e => e.callback returns (w.files e.path)
            phase := .before (k + 1) }
      | _ => none

/-! ## What a step does -/

theorem step_turn {w w' : Watcher} (h : step w .turn = some w') :
    ∃ k, w.phase = .before k ∧
      ((w.entries[k]? = none ∧ w' = { w with phase := .idle }) ∨
        ∃ e, w.entries[k]? = some e ∧
          ((w.files e.path = none ∧ w' = { w with phase := .before (k + 1) }) ∨
            ∃ v, w.files e.path = some v ∧ w' = { w with
              entries := w.entries.set k (e.see v.mtime).1
              phase := if (e.see v.mtime).2 then .firing k else .before (k + 1) })) := by
  rw [step] at h
  split at h
  · rename_i k hphase
    refine ⟨k, hphase, ?_⟩
    split at h
    · rename_i hend
      exact Or.inl ⟨hend, (Option.some.inj h).symm⟩
    · rename_i e hk
      refine Or.inr ⟨e, hk, ?_⟩
      split at h
      · rename_i hgone
        exact Or.inl ⟨hgone, (Option.some.inj h).symm⟩
      · rename_i v hfile
        exact Or.inr ⟨v, hfile, (Option.some.inj h).symm⟩
  · cases h

theorem step_callback {w w' : Watcher} {returns : Bool}
    (h : step w (.callback returns) = some w') :
    ∃ k, w.phase = .firing k ∧ w' = { w with
      entries := w.entries.modify k fun e => e.callback returns (w.files e.path)
      phase := .before (k + 1) } := by
  rw [step] at h
  split at h
  · rename_i k hphase
    exact ⟨k, hphase, (Option.some.inj h).symm⟩
  · cases h

theorem step_watch {w w' : Watcher} {path : Str} (h : step w (.watch path) = some w') :
    w.phase = .idle ∧ w' = { w with entries := w.entries ++ [w.entryOf path] } := by
  obtain ⟨hidle, heq⟩ := Option.ite_none_right_eq_some.mp h
  exact ⟨hidle, (Option.some.inj heq).symm⟩

theorem step_startPass {w w' : Watcher} (h : step w .startPass = some w') :
    w.phase = .idle ∧ w' = { w with phase := .before 0 } := by
  obtain ⟨hidle, heq⟩ := Option.ite_none_right_eq_some.mp h
  exact ⟨hidle, (Option.some.inj heq).symm⟩

/-- Every entry of the next state is one of before, one that has seen its file, one that was
called back, or the one that is added. -/
theorem step_entries {w w' : Watcher} {event : Event} (h : step w event = some w') {e' : Entry}
    (he : e' ∈ w'.entries) :
    e' ∈ w.entries ∨ (∃ path, e' = w.entryOf path) ∨
      ∃ e ∈ w.entries, (∃ mtime, e' = (e.see mtime).1) ∨
        ∃ returns current, e' = e.callback returns current := by
  cases event with
  | edit path version =>
      cases h
      exact Or.inl he
  | watch path =>
      obtain ⟨-, rfl⟩ := step_watch h
      rcases List.mem_append.mp he with he | he
      · exact Or.inl he
      · exact Or.inr (Or.inl ⟨path, List.mem_singleton.mp he⟩)
  | startPass =>
      obtain ⟨-, rfl⟩ := step_startPass h
      exact Or.inl he
  | turn =>
      obtain ⟨k, -, ⟨-, rfl⟩ | ⟨e, hk, ⟨-, rfl⟩ | ⟨v, -, rfl⟩⟩⟩ := step_turn h
      · exact Or.inl he
      · exact Or.inl he
      · rcases List.mem_or_eq_of_mem_set he with he | he
        · exact Or.inl he
        · exact Or.inr (Or.inr ⟨e, List.mem_of_getElem? hk, Or.inl ⟨_, he⟩⟩)
  | callback returns =>
      obtain ⟨k, -, rfl⟩ := step_callback h
      obtain ⟨i, hi⟩ := List.mem_iff_getElem?.mp he
      rw [List.getElem?_modify] at hi
      obtain ⟨e, hold, heq⟩ := Option.map_eq_some_iff.mp hi
      have hmem := List.mem_of_getElem? hold
      split at heq
      · exact Or.inr (Or.inr ⟨e, hmem, Or.inr ⟨_, _, heq.symm⟩⟩)
      · exact Or.inl (heq ▸ hmem)

/-! ## One call for each change -/

/-- The last time is the one seen last, and the calls are the changes of what was seen. -/
structure Entry.Edges (e : Entry) : Prop where
  last : e.lastMtime = e.sighted.getLastD minTime
  fired : (∀ mtime ∈ e.sighted, mtime ≠ minTime) → e.fired = Changes.changes e.sighted

theorem Entry.Edges.see {e : Entry} (h : e.Edges) (mtime : Int) : (e.see mtime).1.Edges := by
  have hlast : (e.sighted ++ [mtime]).getLastD minTime = mtime := by simp
  unfold Entry.see
  split
  · rename_i hnever
    refine ⟨hlast.symm, fun hseen => ?_⟩
    -- no time was seen before: the last one would be the one of a file never seen
    have hnil : e.sighted = [] := by
      by_contra hne
      have hmem := List.getLast_mem hne
      rw [h.last, List.getLastD_eq_getLast?, List.getLast?_eq_getLast_of_ne_nil hne] at hnever
      exact hseen _ (List.mem_append_left _ hmem) hnever
    have hfired := h.fired (by simp [hnil])
    rw [hnil] at hfired ⊢
    exact hfired
  · rename_i hseen
    have hne : e.sighted ≠ [] := by
      intro hnil
      rw [h.last, hnil] at hseen
      exact hseen rfl
    split
    · rename_i hchanged
      refine ⟨hlast.symm, fun hall => ?_⟩
      have hfired := h.fired fun m hm => hall m (List.mem_append_left _ hm)
      rw [h.last] at hchanged
      change e.fired ++ [mtime] = _
      rw [Changes.changes_concat hne minTime, if_pos (Ne.symm hchanged), hfired]
    · rename_i hsame
      refine ⟨hlast.symm, fun hall => ?_⟩
      have hfired := h.fired fun m hm => hall m (List.mem_append_left _ hm)
      rw [not_not, h.last] at hsame
      change e.fired = _
      rw [Changes.changes_concat hne minTime, if_neg (not_not.mpr hsame.symm), hfired,
        List.append_nil]

theorem Entry.Edges.callback {e : Entry} (h : e.Edges) (returns : Bool)
    (current : Option Version) : (e.callback returns current).Edges := by
  unfold Entry.callback
  split
  · exact ⟨h.last, h.fired⟩
  · exact ⟨h.last, h.fired⟩

theorem edges_entryOf (w : Watcher) (path : Str) : (w.entryOf path).Edges := by
  have hnew : ∀ e : Entry, e.lastMtime = minTime → e.sighted = [] → e.fired = [] → e.Edges := by
    intro e hlast hsighted hfired
    exact ⟨by rw [hlast, hsighted]; rfl, fun _ => by rw [hfired, hsighted]; rfl⟩
  unfold Watcher.entryOf
  split
  · exact (hnew _ rfl rfl rfl).see _
  · exact hnew _ rfl rfl rfl

/-- In every run the watcher calls back for an entry exactly at the changes of the times it has
seen: once for each time that differs from the one seen before it, and never for the first. -/
theorem fired_eq_changes {files : Str → Option Version} {times : List (Str × Int)} {w : Watcher}
    (h : Run step AnyStep { files := files, times := times } w) {e : Entry} (he : e ∈ w.entries)
    (hseen : ∀ mtime ∈ e.sighted, mtime ≠ minTime) :
    e.fired = Changes.changes e.sighted ∧ e.lastMtime = e.sighted.getLastD minTime := by
  have hall : ∀ e ∈ w.entries, e.Edges := by
    refine h.invariant (motive := fun w => ∀ e ∈ w.entries, e.Edges) (by simp) ?_
    intro w event w' ih _ hstep e' he'
    rcases step_entries hstep he' with hold | ⟨path, rfl⟩ | ⟨e, he, hseen | hcalled⟩
    · exact ih e' hold
    · exact edges_entryOf w path
    · obtain ⟨mtime, rfl⟩ := hseen
      exact (ih e he).see mtime
    · obtain ⟨returns, current, rfl⟩ := hcalled
      exact (ih e he).callback returns current
  exact ⟨(hall e he).fired hseen, (hall e he).last⟩

/-- A file that is written again with a new time, read at the next pass. -/
def demoEvents : List Event :=
  [.watch (lit "c.json"), .startPass, .turn, .turn,
    .edit (lit "c.json") (some { mtime := 2, content := lit "b" }),
    .startPass, .turn, .callback true, .turn]

def demoFiles : Str → Option Version :=
  Function.update (fun _ => none) (lit "c.json") (some { mtime := 1, content := lit "a" })

theorem fired_eq_changes_demo :
    ∃ w, Run step AnyStep { files := demoFiles, times := [(lit "c.json", 1)] } w ∧
      ∃ e ∈ w.entries, (∀ mtime ∈ e.sighted, mtime ≠ minTime) ∧ e.sighted = [1, 1, 2] ∧
        e.fired = Changes.changes e.sighted ∧ e.lastMtime = e.sighted.getLastD minTime := by
  obtain ⟨w, hrun, e, he, hseen, hsighted⟩ := exists_run_of_any step AnyStep
    ({ files := demoFiles, times := [(lit "c.json", 1)] } : Watcher) demoEvents
    (p := fun w => ∃ e ∈ w.entries, (∀ mtime ∈ e.sighted, mtime ≠ minTime) ∧
      e.sighted = [1, 1, 2]) (by decide +kernel)
  exact ⟨w, hrun, e, he, hseen, hsighted, fired_eq_changes hrun he hseen⟩

/-! ## Catching up -/

/-- Every version of a file has a time of its own, and none the one of a file never seen. -/
def Dated (w : Watcher) : Event → Prop
  | .edit path version => ∀ v ∈ version, (path, v.mtime) ∉ w.times ∧ v.mtime ≠ minTime
  | _ => True

/-- Nobody writes a file, and every callback returns. -/
def Quiet (_ : Watcher) : Event → Prop
  | .edit .. => False
  | .callback returns => returns = true
  | _ => True

instance (w : Watcher) : (event : Event) → Decidable (Dated w event)
  | .edit path version =>
      inferInstanceAs (Decidable (∀ v ∈ version, (path, v.mtime) ∉ w.times ∧ v.mtime ≠ minTime))
  | .watch _ | .startPass | .turn | .callback _ => inferInstanceAs (Decidable True)

instance (w : Watcher) : (event : Event) → Decidable (Quiet w event)
  | .edit .. => inferInstanceAs (Decidable False)
  | .callback returns => inferInstanceAs (Decidable (returns = true))
  | .watch _ | .startPass | .turn => inferInstanceAs (Decidable True)

/-- What the entry at index `i` holds, of a file that was there from the beginning. -/
structure Watcher.Knows (w : Watcher) (i : Nat) (e : Entry) : Prop where
  seen : e.lastMtime ≠ minTime
  dated : (e.path, e.lastMtime) ∈ w.times
  read : w.phase ≠ .firing i → e.threw = false →
    ∀ v, w.files e.path = some v → v.mtime = e.lastMtime → e.read = some v

structure Watcher.Sound (w : Watcher) : Prop where
  files : ∀ path v, w.files path = some v → (path, v.mtime) ∈ w.times ∧ v.mtime ≠ minTime
  entries : ∀ i e, w.entries[i]? = some e → e.present = true → w.Knows i e

/-- The callback has returned for the file as it is now, or has thrown. -/
def Watcher.CaughtUp (w : Watcher) (e : Entry) : Prop :=
  e.present = true → e.threw = false → ∀ v, w.files e.path = some v → e.read = some v

/-- An entry whose file is there is added with what the program has read before. -/
theorem entryOf_some {w : Watcher} {path : Str} {v : Version} (h : w.files path = some v) :
    w.entryOf path =
      { path := path, lastMtime := v.mtime, sighted := [v.mtime], present := true,
        read := some v } := by
  simp [Watcher.entryOf, h, Entry.see]

theorem entryOf_none {w : Watcher} {path : Str} (h : w.files path = none) :
    (w.entryOf path).present = false := by
  simp [Watcher.entryOf, h]

/-- A file that was seen before is looked at: nothing has changed, or a call is due. -/
theorem see_cases {e : Entry} (h : e.lastMtime ≠ minTime) (mtime : Int) :
    ((e.see mtime).2 = false ∧ mtime = e.lastMtime) ∨
      ((e.see mtime).2 = true ∧ mtime ≠ e.lastMtime) := by
  rw [Entry.see, if_neg h]
  split
  · exact Or.inr ⟨rfl, by assumption⟩
  · exact Or.inl ⟨rfl, not_not.mp (by assumption)⟩

/-- What stays the same, and the time that was seen. -/
theorem see_fields (e : Entry) (mtime : Int) :
    (e.see mtime).1.path = e.path ∧ (e.see mtime).1.lastMtime = mtime ∧
      (e.see mtime).1.present = e.present ∧ (e.see mtime).1.read = e.read ∧
      (e.see mtime).1.threw = e.threw := by
  unfold Entry.see
  split
  · exact ⟨rfl, rfl, rfl, rfl, rfl⟩
  · split
    · exact ⟨rfl, rfl, rfl, rfl, rfl⟩
    · exact ⟨rfl, rfl, rfl, rfl, rfl⟩

section Indices

variable {entries : List Entry} {i k : Nat} {e e' : Entry}

theorem of_getElem?_add (h : (entries ++ [e'])[i]? = some e) : entries[i]? = some e ∨ e = e' := by
  rw [List.getElem?_append] at h
  split at h
  · exact Or.inl h
  · exact Or.inr (List.mem_singleton.mp (List.mem_of_getElem? h))

theorem of_getElem?_set (h : (entries.set k e')[i]? = some e) :
    i ≠ k ∧ entries[i]? = some e ∨ i = k ∧ e = e' := by
  rw [List.getElem?_set] at h
  split at h
  · rename_i hik
    split at h
    · exact Or.inr ⟨hik.symm, (Option.some.inj h).symm⟩
    · cases h
  · rename_i hik
    exact Or.inl ⟨Ne.symm hik, h⟩

theorem of_getElem?_modify {f : Entry → Entry} (h : (entries.modify k f)[i]? = some e) :
    i ≠ k ∧ entries[i]? = some e ∨ i = k ∧ ∃ e₀, entries[i]? = some e₀ ∧ e = f e₀ := by
  rw [List.getElem?_modify] at h
  obtain ⟨e₀, hold, heq⟩ := Option.map_eq_some_iff.mp h
  split at heq
  · rename_i hik
    exact Or.inr ⟨hik.symm, e₀, hold, heq.symm⟩
  · rename_i hik
    exact Or.inl ⟨Ne.symm hik, heq ▸ hold⟩

end Indices

section Steps

variable {w w' : Watcher}

theorem Watcher.Sound.edit (h : w.Sound) {path : Str} {version : Option Version}
    (hdated : Dated w (.edit path version))
    (hstep : ConfigWatcher.step w (.edit path version) = some w') : w'.Sound := by
  cases hstep
  constructor
  · intro path' v hfile
    simp only [Function.update_apply] at hfile
    split at hfile
    · rename_i hpath
      subst hpath
      exact ⟨List.mem_append_right _ (by simp [hfile]), (hdated v hfile).2⟩
    · exact ⟨List.mem_append_left _ (h.files _ _ hfile).1, (h.files _ _ hfile).2⟩
  · intro i e he hpresent
    obtain ⟨hseen, hmem, hread⟩ := h.entries i e he hpresent
    refine ⟨hseen, List.mem_append_left _ hmem, fun hphase hthrew v hfile hlast => ?_⟩
    simp only [Function.update_apply] at hfile
    split at hfile
    · -- the new version would have the time of an older one
      rename_i hpath
      rw [hpath, ← hlast] at hmem
      exact absurd hmem (hdated v hfile).1
    · exact hread hphase hthrew v hfile hlast

theorem Watcher.Sound.watch (h : w.Sound) {path : Str}
    (hstep : ConfigWatcher.step w (.watch path) = some w') : w'.Sound := by
  obtain ⟨hidle, rfl⟩ := step_watch hstep
  refine ⟨h.files, fun i e he hpresent => ?_⟩
  rcases of_getElem?_add he with hold | rfl
  · obtain ⟨hseen, hmem, hread⟩ := h.entries i e hold hpresent
    exact ⟨hseen, hmem, hread⟩
  · cases hfile : w.files path with
    | none =>
        rw [entryOf_none hfile] at hpresent
        cases hpresent
    | some v =>
        rw [entryOf_some hfile]
        refine ⟨(h.files _ _ hfile).2, (h.files _ _ hfile).1, fun _ _ v' hfile' _ => ?_⟩
        exact hfile.symm.trans hfile'

theorem Watcher.Sound.startPass (h : w.Sound)
    (hstep : ConfigWatcher.step w .startPass = some w') : w'.Sound := by
  obtain ⟨hidle, rfl⟩ := step_startPass hstep
  refine ⟨h.files, fun i e he hpresent => ?_⟩
  obtain ⟨hseen, hmem, hread⟩ := h.entries i e he hpresent
  exact ⟨hseen, hmem, fun _ => hread (by simp [hidle])⟩

theorem Watcher.Sound.turn (h : w.Sound) (hstep : ConfigWatcher.step w .turn = some w') :
    w'.Sound := by
  obtain ⟨k, hphase, hturn⟩ := step_turn hstep
  have hold : ∀ i e, w.entries[i]? = some e → e.present = true → ∀ phase entries,
      ({ w with entries := entries, phase := phase } : Watcher).Knows i e := by
    intro i e he hpresent phase entries
    obtain ⟨hseen, hmem, hread⟩ := h.entries i e he hpresent
    exact ⟨hseen, hmem, fun _ => hread (by simp [hphase])⟩
  rcases hturn with ⟨-, rfl⟩ | ⟨e, hk, ⟨-, rfl⟩ | ⟨v, hfile, rfl⟩⟩
  · exact ⟨h.files, fun i e he hpresent => hold i e he hpresent _ _⟩
  · exact ⟨h.files, fun i e he hpresent => hold i e he hpresent _ _⟩
  · refine ⟨h.files, fun i e' he' hpresent => ?_⟩
    rcases of_getElem?_set he' with ⟨-, he'⟩ | ⟨rfl, rfl⟩
    · exact hold i e' he' hpresent _ _
    · obtain ⟨hpath, hlast, hpresent', hread', hthrew'⟩ := see_fields e v.mtime
      rw [hpresent'] at hpresent
      obtain ⟨hseen, -, hread⟩ := h.entries i e hk hpresent
      refine ⟨?_, ?_, fun hfiring hthrew v' hfile' _ => ?_⟩
      · rw [hlast]
        exact (h.files _ _ hfile).2
      · rw [hpath, hlast]
        exact (h.files _ _ hfile).1
      · rcases see_cases hseen v.mtime with ⟨-, hsame⟩ | ⟨hcall, -⟩
        · rw [hpath, hfile] at hfile'
          rw [hthrew'] at hthrew
          cases hfile'
          rw [hread']
          exact hread (by simp [hphase]) hthrew v hfile hsame
        · simp [hcall] at hfiring

theorem Watcher.Sound.callback (h : w.Sound) {returns : Bool}
    (hstep : ConfigWatcher.step w (.callback returns) = some w') : w'.Sound := by
  obtain ⟨k, hphase, rfl⟩ := step_callback hstep
  refine ⟨h.files, fun i e he hpresent => ?_⟩
  rcases of_getElem?_modify he with ⟨hik, he⟩ | ⟨-, e₀, he₀, rfl⟩
  · obtain ⟨hseen, hmem, hread⟩ := h.entries i e he hpresent
    exact ⟨hseen, hmem, fun _ => hread (by simp [hphase, Ne.symm hik])⟩
  · unfold Entry.callback at hpresent ⊢
    cases returns with
    | true =>
        obtain ⟨hseen, hmem, -⟩ := h.entries i e₀ he₀ hpresent
        exact ⟨hseen, hmem, fun _ _ v hfile _ => hfile⟩
    | false =>
        obtain ⟨hseen, hmem, -⟩ := h.entries i e₀ he₀ hpresent
        exact ⟨hseen, hmem, fun _ hthrew => nomatch hthrew⟩

theorem Watcher.Sound.step (h : w.Sound) {event : Event} (hdated : Dated w event)
    (hstep : ConfigWatcher.step w event = some w') : w'.Sound := by
  cases event with
  | edit path version => exact h.edit hdated hstep
  | watch path => exact h.watch hstep
  | startPass => exact h.startPass hstep
  | turn => exact h.turn hstep
  | callback returns => exact h.callback hstep

end Steps

/-- The entries that the pass is done with; between two passes, all. -/
def Watcher.Done (w : Watcher) (i : Nat) : Prop :=
  match w.phase with
  | .idle => True
  | .before k => i < k
  | .firing k => i < k

structure Watcher.Settled (w : Watcher) : Prop where
  sound : w.Sound
  caughtUp : ∀ i e, w.entries[i]? = some e → w.Done i → w.CaughtUp e

/-- The next entry is looked at: what it has read is what there is, unless a call is due. -/
theorem Watcher.Settled.turn {w w' : Watcher} (h : w.Settled) (hsound : w'.Sound)
    (hstep : ConfigWatcher.step w .turn = some w') :
    ∀ i e, w'.entries[i]? = some e → w'.Done i → w'.CaughtUp e := by
  obtain ⟨k, hphase, ⟨hend, rfl⟩ | ⟨e, hk, ⟨hgone, rfl⟩ | ⟨v, hfile, rfl⟩⟩⟩ := step_turn hstep
  · intro i e he _
    have hlt : i < k := by
      have hlen := (List.getElem?_eq_some_iff.mp he).1
      have hall := List.getElem?_eq_none_iff.mp hend
      exact lt_of_lt_of_le hlen hall
    exact h.caughtUp i e he (by simp [Watcher.Done, hphase, hlt])
  · intro i e' he' hdone
    rcases Nat.lt_succ_iff_lt_or_eq.mp hdone with hlt | rfl
    · exact h.caughtUp i e' he' (by simp [Watcher.Done, hphase, hlt])
    · rw [hk] at he'
      cases he'
      intro _ _ v hfile
      rw [hgone] at hfile
      cases hfile
  · intro i e' he' hdone
    cases hcall : (e.see v.mtime).2 with
    | true =>
        simp only [Watcher.Done, hcall, if_true] at hdone
        rcases of_getElem?_set he' with ⟨-, hold⟩ | ⟨rfl, -⟩
        · exact h.caughtUp i e' hold (by simp [Watcher.Done, hphase, hdone])
        · exact absurd hdone (lt_irrefl i)
    | false =>
        simp only [Watcher.Done, hcall, Bool.false_eq_true, if_false] at hdone
        rcases of_getElem?_set he' with ⟨hik, hold⟩ | ⟨rfl, rfl⟩
        · have hlt : i < k := lt_of_le_of_ne (Nat.le_of_lt_succ hdone) hik
          exact h.caughtUp i e' hold (by simp [Watcher.Done, hphase, hlt])
        · -- no call was due, so what was read is what there is
          obtain ⟨hpath, hlast, -⟩ := see_fields e v.mtime
          intro hpresent hthrew v' hfile'
          refine (hsound.entries i _ he' hpresent).read (by simp [hcall]) hthrew v' hfile' ?_
          rw [hlast]
          rw [hpath] at hfile'
          rw [Option.some.inj (hfile'.symm.trans hfile)]

theorem Watcher.Settled.step {w w' : Watcher} (h : w.Settled) {event : Event}
    (hquiet : Quiet w event) (hstep : ConfigWatcher.step w event = some w') : w'.Settled := by
  have hdated : Dated w event := by
    cases event with
    | edit => exact hquiet.elim
    | _ => trivial
  refine ⟨h.sound.step hdated hstep, ?_⟩
  have hsound := h.sound.step hdated hstep
  cases event with
  | edit => exact hquiet.elim
  | watch path =>
      obtain ⟨hidle, rfl⟩ := step_watch hstep
      intro i e he _
      rcases of_getElem?_add he with hold | rfl
      · exact h.caughtUp i e hold (by simp [Watcher.Done, hidle])
      · intro hpresent _ v hfile
        cases hthere : w.files path with
        | none =>
            rw [entryOf_none hthere] at hpresent
            cases hpresent
        | some v' =>
            rw [entryOf_some hthere] at hfile ⊢
            exact hthere.symm.trans hfile
  | startPass =>
      obtain ⟨-, rfl⟩ := step_startPass hstep
      intro i e _ hdone
      exact absurd hdone (Nat.not_lt_zero i)
  | turn => exact h.turn hsound hstep
  | callback returns =>
      obtain ⟨k, hphase, rfl⟩ := step_callback hstep
      intro i e he hdone
      rcases of_getElem?_modify he with ⟨hik, he⟩ | ⟨-, e₀, he₀, rfl⟩
      · have hlt : i < k := by
          rcases Nat.lt_succ_iff_lt_or_eq.mp hdone with hlt | heq
          · exact hlt
          · exact absurd heq hik
        exact h.caughtUp i e he (by simp [Watcher.Done, hphase, hlt])
      · have hreturns : returns = true := hquiet
        subst hreturns
        exact fun _ _ v hfile => hfile

end JiuwenCore.ConfigWatcher
