import Mathlib.Data.List.Basic

/-!
# The words of a text

A word is a part of a text without white space that has white space, or an end of the text,
on both sides.
-/

namespace JiuwenCore.Words

variable {α : Type*} (isSpace : α → Bool)

/-- The words of a text, in order. -/
def words (s : List α) : List (List α) := (s.splitOnP isSpace).filter fun w => !w.isEmpty

/-- A part of a text that is one of its words. -/
def IsWord (w s : List α) : Prop :=
  w ≠ [] ∧ (∀ c ∈ w, isSpace c = false) ∧
    ∃ before after, s = before ++ (w ++ after) ∧
      (∀ c ∈ before.getLast?, isSpace c = true) ∧ ∀ c ∈ after.head?, isSpace c = true

variable {isSpace}

theorem words_append {c : α} (hc : isSpace c = true) (s t : List α) :
    words isSpace (s ++ c :: t) = words isSpace s ++ words isSpace t := by
  rw [words, List.splitOnP_append_cons s t hc, List.filter_append]
  rfl

theorem words_single {s : List α} (h : ∀ c ∈ s, isSpace c = false) :
    words isSpace s = if s = [] then [] else [s] := by
  rw [words, List.splitOnP_eq_singleton h]
  cases s <;> simp

/-- No word goes beyond white space. -/
theorem isWord_append {c : α} (hc : isSpace c = true) {w s t : List α} :
    IsWord isSpace w (s ++ c :: t) ↔ IsWord isSpace w s ∨ IsWord isSpace w t := by
  constructor
  · intro h
    obtain ⟨hne, hw, before, after, heq, hbefore, hafter⟩ := h
    have hnot : c ∉ w := fun hmem => by simp [hw c hmem] at hc
    rcases List.append_eq_append_iff.mp heq with ⟨more, rfl, hrest⟩ | ⟨more, rfl, hrest⟩
    · -- the white space is in front of the word
      right
      cases more with
      | nil =>
          obtain ⟨d, w, rfl⟩ := List.exists_cons_of_ne_nil hne
          cases hrest
          exact absurd List.mem_cons_self hnot
      | cons d more =>
          cases hrest
          refine ⟨hne, hw, more, after, rfl, ?_, hafter⟩
          cases more with
          | nil => simp
          | cons a more => simpa [List.getLast?_append] using hbefore
    · left
      rcases List.append_eq_append_iff.mp hrest with ⟨tail, rfl, rfl⟩ | ⟨tail, rfl, htail⟩
      · refine ⟨hne, hw, before, tail, rfl, hbefore, ?_⟩
        cases tail with
        | nil => simp
        | cons d tail => exact hafter
      · cases tail with
        | nil => exact ⟨hne, hw, before, [], by simp, hbefore, by simp⟩
        | cons d tail =>
            cases htail
            simp at hnot
  · intro h
    rcases h with ⟨hne, hw, before, after, rfl, hbefore, hafter⟩ |
      ⟨hne, hw, before, after, rfl, hbefore, hafter⟩
    · refine ⟨hne, hw, before, after ++ c :: t, by simp, hbefore, ?_⟩
      cases after with
      | nil => simpa using hc
      | cons a after => exact hafter
    · refine ⟨hne, hw, s ++ c :: before, after, by simp, ?_, hafter⟩
      cases before with
      | nil => simpa using hc
      | cons a before => simpa [List.getLast?_append] using hbefore

theorem isWord_between {c d : α} (hc : isSpace c = true) (hd : isSpace d = true) {w : List α}
    (hne : w ≠ []) (hw : ∀ c ∈ w, isSpace c = false) (front behind : List α) :
    IsWord isSpace w (front ++ [c] ++ w ++ d :: behind) :=
  ⟨hne, hw, front ++ [c], d :: behind, by simp, by simpa using hc, by simpa using hd⟩

theorem isWord_single {w s : List α} (h : ∀ c ∈ s, isSpace c = false) :
    IsWord isSpace w s ↔ w = s ∧ s ≠ [] := by
  constructor
  · intro hword
    obtain ⟨hne, -, before, after, rfl, hbefore, hafter⟩ := hword
    have hfront : before = [] := by
      by_contra hcons
      have hlast := hbefore _ (List.getLast?_eq_getLast_of_ne_nil hcons)
      rw [h _ (List.mem_append_left _ (List.getLast_mem hcons))] at hlast
      cases hlast
    have hbehind : after = [] := by
      cases after with
      | nil => rfl
      | cons c after =>
          have hhead := hafter c rfl
          rw [h c (by simp)] at hhead
          cases hhead
    simp [hfront, hbehind, hne]
  · intro hs
    obtain ⟨rfl, hne⟩ := hs
    exact ⟨hne, h, [], [], by simp, by simp, by simp⟩

/-- What is read word by word is what stands between white space. -/
theorem mem_words_iff (w s : List α) : w ∈ words isSpace s ↔ IsWord isSpace w s := by
  induction hlength : s.length using Nat.strongRecOn generalizing s with
  | ind n ih =>
      by_cases hspace : ∃ c ∈ s, isSpace c = true
      · obtain ⟨c, hmem, hc⟩ := hspace
        obtain ⟨before, after, rfl⟩ := List.append_of_mem hmem
        rw [List.length_append, List.length_cons] at hlength
        rw [words_append hc, isWord_append hc, List.mem_append, ih _ (by omega) before rfl,
          ih _ (by omega) after rfl]
      · have hs : ∀ c ∈ s, isSpace c = false := by simpa using hspace
        rw [words_single hs, isWord_single hs]
        split
        · rename_i hnil
          simp [hnil]
        · rename_i hne
          simp [hne]

instance [DecidableEq α] (w s : List α) : Decidable (IsWord isSpace w s) :=
  decidable_of_iff _ (mem_words_iff w s)

end JiuwenCore.Words
