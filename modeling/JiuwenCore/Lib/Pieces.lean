import Mathlib.Data.List.Flatten

/-!
# Cutting a list before marked elements

`pieces p l` cuts `l` before every element that satisfies `p`. The first piece
may start with any element, every later one starts with a marked element, and
nothing is lost: the pieces concatenate to `l`.
-/

namespace JiuwenCore.Pieces

variable {α : Type*}

/-- The pieces of `cur ++ rest`, where `cur` is the piece still open. -/
@[grind =] def piecesFrom (p : α → Bool) (cur : List α) : List α → List (List α)
  | [] => [cur]
  | a :: rest => if p a then cur :: piecesFrom p [a] rest else piecesFrom p (cur ++ [a]) rest

def pieces (p : α → Bool) : List α → List (List α)
  | [] => []
  | a :: rest => piecesFrom p [a] rest

theorem piecesFrom_flatten (p : α → Bool) (cur rest : List α) :
    (piecesFrom p cur rest).flatten = cur ++ rest := by
  induction rest generalizing cur with
  | nil => simp [piecesFrom]
  | cons a rest ih =>
      by_cases h : p a
      · simp [piecesFrom, h, ih]
      · simp [piecesFrom, h, ih]

@[simp] theorem pieces_flatten (p : α → Bool) (l : List α) : (pieces p l).flatten = l := by
  cases l with
  | nil => rfl
  | cons a rest => simp [pieces, piecesFrom_flatten]

theorem piecesFrom_ne_nil (p : α → Bool) {cur : List α} (hcur : cur ≠ []) (rest : List α) :
    ∀ piece ∈ piecesFrom p cur rest, piece ≠ [] := by
  induction rest generalizing cur with
  | nil => simpa [piecesFrom] using hcur
  | cons a rest ih =>
      unfold piecesFrom
      split
      · intro piece hp
        rcases List.mem_cons.mp hp with rfl | hp
        · exact hcur
        · exact ih (List.cons_ne_nil a []) piece hp
      · exact ih (by simp)

theorem pieces_ne_nil (p : α → Bool) (l : List α) : ∀ piece ∈ pieces p l, piece ≠ [] := by
  cases l with
  | nil => simp [pieces]
  | cons a rest => exact piecesFrom_ne_nil p (List.cons_ne_nil a []) rest

theorem piecesFrom_head (p : α → Bool) {cur : List α} (hcur : cur ≠ []) (rest : List α) :
    ∃ tail, (piecesFrom p cur rest).head? = some (cur ++ tail) := by
  induction rest generalizing cur with
  | nil => exact ⟨[], by simp [piecesFrom]⟩
  | cons a rest ih =>
      unfold piecesFrom
      split
      · exact ⟨[], by simp⟩
      · have hopen : cur ++ [a] ≠ [] := by simp
        obtain ⟨tail, ht⟩ := ih hopen
        exact ⟨a :: tail, by simpa using ht⟩

/-- Every piece after the first starts with a marked element. -/
theorem piecesFrom_tail_marked (p : α → Bool) {cur : List α} (hcur : cur ≠ []) (rest : List α) :
    ∀ piece ∈ (piecesFrom p cur rest).tail, ∃ a tail, piece = a :: tail ∧ p a = true := by
  induction rest generalizing cur with
  | nil => simp [piecesFrom]
  | cons a rest ih =>
      unfold piecesFrom
      split
      · rename_i ha
        intro piece hp
        simp only [List.tail_cons] at hp
        obtain ⟨tail, ht⟩ := piecesFrom_head p (List.cons_ne_nil a []) rest
        cases hps : piecesFrom p [a] rest with
        | nil => simp [hps] at hp
        | cons first others =>
            simp only [hps, List.head?_cons, Option.some.injEq] at ht
            rw [hps] at hp
            rcases List.mem_cons.mp hp with rfl | hp
            · exact ⟨a, tail, by simpa using ht, ha⟩
            · exact ih (List.cons_ne_nil a []) piece (by simpa [hps] using hp)
      · exact ih (by simp)

theorem pieces_tail_marked (p : α → Bool) (l : List α) :
    ∀ piece ∈ (pieces p l).tail, ∃ a tail, piece = a :: tail ∧ p a = true := by
  cases l with
  | nil => simp [pieces]
  | cons a rest => exact piecesFrom_tail_marked p (List.cons_ne_nil a []) rest

/-- Cutting the sequence of pieces anywhere but at its start cuts the list
before a marked element. -/
theorem pieces_suffix_marked (p : α → Bool) {l : List α} {before after : List (List α)}
    (h : pieces p l = before ++ after) (hb : before ≠ []) :
    after.flatten = [] ∨ ∃ a tail, after.flatten = a :: tail ∧ p a = true := by
  cases after with
  | nil => exact Or.inl rfl
  | cons piece after =>
      have hmem : piece ∈ (pieces p l).tail := by
        obtain ⟨first, others, rfl⟩ := List.exists_cons_of_ne_nil hb
        simp [h]
      obtain ⟨a, tail, rfl, ha⟩ := pieces_tail_marked p l piece hmem
      exact Or.inr ⟨a, tail ++ after.flatten, by simp, ha⟩

/-- Only the first element of a piece may be marked. -/
theorem piecesFrom_inner (p : α → Bool) {cur : List α} (rest : List α)
    (hcur : ∀ a ∈ cur.tail, p a = false) (hne : cur ≠ []) :
    ∀ piece ∈ piecesFrom p cur rest, ∀ a ∈ piece.tail, p a = false := by
  induction rest generalizing cur with
  | nil => simpa [piecesFrom] using hcur
  | cons b rest ih =>
      unfold piecesFrom
      split
      · intro piece hp
        rcases List.mem_cons.mp hp with rfl | hp
        · exact hcur
        · exact ih (by simp) (List.cons_ne_nil b []) piece hp
      · rename_i hb
        refine ih ?_ (by simp)
        intro a ha
        rw [List.tail_append_of_ne_nil hne] at ha
        rcases List.mem_append.mp ha with ha | ha
        · exact hcur a ha
        · rw [List.mem_singleton.mp ha]
          simpa using hb

theorem pieces_inner (p : α → Bool) (l : List α) :
    ∀ piece ∈ pieces p l, ∀ a ∈ piece.tail, p a = false := by
  cases l with
  | nil => simp [pieces]
  | cons a rest => exact piecesFrom_inner p rest (by simp) (List.cons_ne_nil a [])

/-- When anything is marked, the last piece starts with the last marked element. -/
theorem pieces_last (p : α → Bool) {l : List α} (h : ∃ a ∈ l, p a = true) :
    ∃ before a tail, pieces p l = before ++ [a :: tail] ∧ p a = true ∧
      (l.filter p).getLast? = some a := by
  rcases List.eq_nil_or_concat (pieces p l) with hnil | ⟨before, piece, hsplit⟩
  · have hflat := pieces_flatten p l
    rw [hnil, List.flatten_nil] at hflat
    simp [← hflat] at h
  · rw [List.concat_eq_append] at hsplit
    have hlast : piece ∈ pieces p l := by simp [hsplit]
    cases piece with
    | nil => exact absurd rfl (pieces_ne_nil p l _ hlast)
    | cons a tail =>
        have hinner : ∀ b ∈ tail, p b = false := pieces_inner p l _ hlast
        have hflat : l = before.flatten ++ a :: tail := by
          have := pieces_flatten p l
          rw [hsplit] at this
          simpa using this.symm
        have hmark : p a = true := by
          by_cases hb : before = []
          · -- the only piece holds every element, and its tail is unmarked
            rcases h with ⟨b, hbmem, hbmark⟩
            rw [hflat, hb, List.flatten_nil, List.nil_append] at hbmem
            rcases List.mem_cons.mp hbmem with rfl | hbmem
            · exact hbmark
            · rw [hinner b hbmem] at hbmark
              exact absurd hbmark Bool.false_ne_true
          · rcases pieces_suffix_marked p hsplit hb with hnil | ⟨b, rest, heq, hbmark⟩
            · simp at hnil
            · simp only [List.flatten_cons, List.flatten_nil, List.append_nil,
                List.cons.injEq] at heq
              exact heq.1 ▸ hbmark
        have htail : tail.filter p = [] := by
          rw [List.filter_eq_nil_iff]
          intro b hb
          simp [hinner b hb]
        refine ⟨before, a, tail, hsplit, hmark, ?_⟩
        rw [hflat, List.filter_append, List.filter_cons_of_pos hmark, htail]
        simp

end JiuwenCore.Pieces
