import Mathlib.Data.List.Basic
import Mathlib.Data.List.Pairwise
import Mathlib.Data.List.TakeWhile

/-!
# Keys that were seen lately

A queue holds keys with the times at which they were taken in. The oldest go as soon as they have
been in it for longer than the window; a key is taken in unless it is there. The queue stands for
the whole history: a key is taken in exactly when it was not within the window.
-/

namespace JiuwenCore.Recent

variable {κ : Type*} (window : Int)

def expire (now : Int) (queue : List (κ × Int)) : List (κ × Int) :=
  queue.dropWhile fun entry => window < now - entry.2

/-- The second part says whether the key was taken in. -/
def register [DecidableEq κ] (now : Int) (key : κ) (queue : List (κ × Int)) :
    List (κ × Int) × Bool :=
  let kept := expire window now queue
  if ∃ entry ∈ kept, entry.1 = key then (kept, false) else (kept ++ [(key, now)], true)

/-- The queue is what is left of the history at a time. -/
structure Tracks (queue history : List (κ × Int)) (now : Int) : Prop where
  rest : ∃ gone, history = gone ++ queue ∧ ∀ entry ∈ gone, window < now - entry.2
  sorted : history.Pairwise fun entry later => entry.2 ≤ later.2
  past : ∀ entry ∈ history, entry.2 ≤ now

/-- Two entries of one key lie further apart than the window. -/
def Spaced (history : List (κ × Int)) : Prop :=
  history.Pairwise fun entry later => entry.1 = later.1 → window < later.2 - entry.2

variable {window}

theorem Tracks.nil (now : Int) : Tracks window ([] : List (κ × Int)) [] now where
  rest := ⟨[], rfl, by simp⟩
  sorted := List.Pairwise.nil
  past := by simp

theorem Tracks.later {queue history : List (κ × Int)} {now now' : Int}
    (h : Tracks window queue history now) (hle : now ≤ now') :
    Tracks window queue history now' where
  rest := by
    obtain ⟨gone, heq, hgone⟩ := h.rest
    exact ⟨gone, heq, fun entry he => by have hold := hgone entry he; omega⟩
  sorted := h.sorted
  past := fun entry he => Int.le_trans (h.past entry he) hle

theorem Tracks.expire {queue history : List (κ × Int)} {now : Int}
    (h : Tracks window queue history now) :
    Tracks window (expire window now queue) history now := by
  obtain ⟨gone, heq, hgone⟩ := h.rest
  refine ⟨⟨gone ++ queue.takeWhile fun entry => window < now - entry.2, ?_, ?_⟩, h.sorted, h.past⟩
  · rw [List.append_assoc, Recent.expire, List.takeWhile_append_dropWhile, heq]
  · intro entry he
    rcases List.mem_append.mp he with he | he
    · exact hgone entry he
    · have hold := List.mem_takeWhile_imp he
      exact of_decide_eq_true hold

/-- What is left is all within the window, as the times are in order. -/
theorem Tracks.within {queue history : List (κ × Int)} {now : Int}
    (h : Tracks window queue history now) {entry : κ × Int}
    (he : entry ∈ Recent.expire window now queue) : now - entry.2 ≤ window := by
  obtain ⟨gone, heq, -⟩ := h.expire.rest
  have hsorted := h.sorted
  rw [heq] at hsorted
  have hkept := (List.pairwise_append.mp hsorted).2.1
  cases hleft : Recent.expire window now queue with
  | nil =>
      rw [hleft] at he
      cases he
  | cons first rest =>
      have hfirst : ¬ window < now - first.2 := by
        have hhead := List.head?_dropWhile_not (fun entry : κ × Int => window < now - entry.2) queue
        rw [← Recent.expire, hleft] at hhead
        simpa using hhead
      rw [hleft] at he hkept
      rcases List.mem_cons.mp he with rfl | he
      · omega
      · have hle := List.rel_of_pairwise_cons hkept he
        omega

/-- A key is taken in exactly when its last time in the history is longer ago than the window. -/
theorem Tracks.register_iff [DecidableEq κ] {queue history : List (κ × Int)} {now : Int}
    (h : Tracks window queue history now) (key : κ) :
    (register window now key queue).2 = true ↔
      ∀ entry ∈ history, entry.1 = key → window < now - entry.2 := by
  obtain ⟨gone, heq, hgone⟩ := h.expire.rest
  have hnew : (register window now key queue).2 = true ↔
      ¬ ∃ entry ∈ Recent.expire window now queue, entry.1 = key := by
    rw [register]
    split
    · rename_i hthere
      exact iff_of_false Bool.false_ne_true (not_not.mpr hthere)
    · rename_i hnone
      exact iff_of_true rfl hnone
  rw [hnew]
  constructor
  · intro hnone entry he hkey
    rw [heq] at he
    rcases List.mem_append.mp he with he | he
    · exact hgone entry he
    · exact absurd ⟨entry, he, hkey⟩ hnone
  · rintro hall ⟨entry, he, hkey⟩
    have hwithin := h.within he
    have hbeyond := hall entry (heq ▸ List.mem_append_right _ he) hkey
    omega

theorem Tracks.register [DecidableEq κ] {queue history : List (κ × Int)} {now : Int}
    (h : Tracks window queue history now) (key : κ) :
    Tracks window (Recent.register window now key queue).1
      (if (Recent.register window now key queue).2 then history ++ [(key, now)] else history)
      now := by
  have hkept := h.expire
  rw [Recent.register]
  split
  · exact hkept
  · obtain ⟨gone, heq, hgone⟩ := hkept.rest
    refine ⟨⟨gone, ?_, hgone⟩, ?_, ?_⟩
    · rw [if_pos rfl, heq, List.append_assoc]
    · refine List.pairwise_append.mpr ⟨h.sorted, List.pairwise_singleton _ _, ?_⟩
      intro entry he later hlater
      rw [List.mem_singleton.mp hlater]
      exact h.past entry he
    · intro entry he
      rcases List.mem_append.mp he with he | he
      · exact h.past entry he
      · have hentry : entry = (key, now) := List.mem_singleton.mp he
        exact Int.le_of_eq (congrArg Prod.snd hentry)

/-- What is taken in keeps the distance. -/
theorem Spaced.concat {history : List (κ × Int)} (h : Spaced window history) {key : κ} {now : Int}
    (hnew : ∀ entry ∈ history, entry.1 = key → window < now - entry.2) :
    Spaced window (history ++ [(key, now)]) := by
  refine List.pairwise_append.mpr ⟨h, List.pairwise_singleton _ _, ?_⟩
  intro entry he later hlater hkey
  rw [List.mem_singleton.mp hlater] at hkey ⊢
  exact hnew entry he hkey

end JiuwenCore.Recent
