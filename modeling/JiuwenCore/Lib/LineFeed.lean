import Mathlib.Data.List.Basic
import Mathlib.Data.List.Flatten
import Mathlib.Data.List.TakeWhile

/-!
# Feeding a stream to a line handler in chunks

A reader keeps the bytes it has not used in a buffer. Each chunk is appended to
the buffer, and every complete line is taken off its front and handed to `step`,
which may ask to drop what is left of the buffer. A reader that never drops
anything does not notice how the stream is cut into chunks (`foldl_feed`). For
one that does, `splits_agree_iff` says when the cuts stay unnoticed.
-/

namespace JiuwenCore.LineFeed

variable {α σ ω : Type*} [DecidableEq α] (sep : α)

/-! ## Lines -/

/-- The first line and what follows its separator. -/
def cutLine : List α → Option (List α × List α)
  | [] => none
  | a :: rest =>
      if a = sep then some ([], rest) else (cutLine rest).map fun cut => (a :: cut.1, cut.2)

/-- The complete lines of a buffer. -/
@[grind =] def lines : List α → List (List α)
  | [] => []
  | a :: rest =>
      if a = sep then [] :: lines rest
      else match lines rest with
        | [] => []
        | line :: more => (a :: line) :: more

/-- What follows the last separator. -/
@[grind =] def remainder : List α → List α
  | [] => []
  | a :: rest => if a ≠ sep ∧ lines sep rest = [] then a :: remainder rest else remainder rest

theorem lines_cons_eq_nil {a : α} {rest : List α} (h : lines sep (a :: rest) = []) :
    a ≠ sep ∧ lines sep rest = [] := by
  unfold lines at h
  split at h
  · cases h
  · rename_i ha
    refine ⟨ha, ?_⟩
    cases hl : lines sep rest with
    | nil => rfl
    | cons line more => simp [hl] at h

theorem remainder_of_lines_eq_nil {buf : List α} (h : lines sep buf = []) :
    remainder sep buf = buf := by
  induction buf with
  | nil => rfl
  | cons a rest ih =>
      have hcons := lines_cons_eq_nil sep h
      rw [remainder, if_pos hcons, ih hcons.2]

@[simp] theorem lines_remainder (buf : List α) : lines sep (remainder sep buf) = [] := by
  induction buf with
  | nil => rfl
  | cons a rest ih =>
      unfold remainder
      split
      · rename_i h
        rw [remainder_of_lines_eq_nil sep h.2, lines, if_neg h.1, h.2]
      · exact ih

/-- The lines of a longer buffer: what follows the last separator goes on. -/
theorem lines_append (buf more : List α) :
    lines sep (buf ++ more) = lines sep buf ++ lines sep (remainder sep buf ++ more) := by
  induction buf with
  | nil => rfl
  | cons a rest ih =>
      by_cases ha : a = sep
      · simp only [List.cons_append, lines, if_pos ha, remainder]
        rw [if_neg fun h => h.1 ha, ih]
      · by_cases hl : lines sep rest = []
        · rw [hl, List.nil_append, remainder_of_lines_eq_nil sep hl] at ih
          have hrest : lines sep (a :: rest) = [] := by simp [lines, ha, hl]
          rw [hrest, remainder_of_lines_eq_nil sep hrest, List.nil_append]
        · obtain ⟨line, others, hcons⟩ := List.exists_cons_of_ne_nil hl
          rw [List.cons_append, lines, if_neg ha, ih, lines, if_neg ha, hcons, remainder,
            if_neg fun h => hl h.2]
          rfl

theorem remainder_append (buf more : List α) :
    remainder sep (buf ++ more) = remainder sep (remainder sep buf ++ more) := by
  induction buf with
  | nil => rfl
  | cons a rest ih =>
      by_cases ha : a = sep
      · rw [List.cons_append, remainder, if_neg fun h => h.1 ha, ih, remainder,
          if_neg fun h => h.1 ha]
      · by_cases hl : lines sep rest = []
        · have hrest : lines sep (a :: rest) = [] := by simp [lines, ha, hl]
          rw [remainder_of_lines_eq_nil sep hrest]
        · have hmore : lines sep (rest ++ more) ≠ [] := by
            rw [lines_append]
            exact fun h => hl (List.append_eq_nil_iff.mp h).1
          rw [List.cons_append, remainder, if_neg fun h => hmore h.2, ih, remainder,
            if_neg fun h => hl h.2]

/-- The bytes of complete lines. -/
def unlines (ls : List (List α)) : List α := ls.flatMap fun line => line ++ [sep]

omit [DecidableEq α] in
@[simp] theorem unlines_cons (line : List α) (more : List (List α)) :
    unlines sep (line :: more) = line ++ sep :: unlines sep more := by
  simp [unlines]

omit [DecidableEq α] in
@[simp] theorem unlines_append (ls ls' : List (List α)) :
    unlines sep (ls ++ ls') = unlines sep ls ++ unlines sep ls' := by
  simp [unlines]

theorem unlines_lines (buf : List α) : unlines sep (lines sep buf) ++ remainder sep buf = buf := by
  induction buf with
  | nil => rfl
  | cons a rest ih =>
      by_cases ha : a = sep
      · rw [lines, if_pos ha, remainder, if_neg fun h => h.1 ha, unlines_cons, List.nil_append,
          List.cons_append, ih, ha]
      · by_cases hl : lines sep rest = []
        · have hnone : lines sep (a :: rest) = [] := by simp [lines, ha, hl]
          rw [remainder_of_lines_eq_nil sep hnone, hnone]
          rfl
        · rw [remainder, if_neg fun h => hl h.2, lines, if_neg ha]
          obtain ⟨line, more, hcons⟩ := List.exists_cons_of_ne_nil hl
          rw [hcons, unlines_cons] at ih
          rw [hcons]
          dsimp only
          rw [unlines_cons, List.cons_append, List.cons_append, ih]

theorem not_mem_of_mem_lines (buf : List α) : ∀ line ∈ lines sep buf, sep ∉ line := by
  induction buf with
  | nil => simp [lines]
  | cons a rest ih =>
      unfold lines
      split
      · intro line hline
        rcases List.mem_cons.mp hline with rfl | hline
        · exact List.not_mem_nil
        · exact ih line hline
      · rename_i ha
        cases hl : lines sep rest with
        | nil => simp
        | cons first more =>
            intro line hline
            rcases List.mem_cons.mp hline with rfl | hline
            · intro hmem
              rcases List.mem_cons.mp hmem with h | hmem
              · exact ha h.symm
              · exact ih first (by simp [hl]) hmem
            · exact ih line (by simp [hl, hline])

theorem lines_append_sep {line : List α} (h : sep ∉ line) (rest : List α) :
    lines sep (line ++ sep :: rest) = line :: lines sep rest := by
  induction line with
  | nil => simp [lines]
  | cons a line ih =>
      have ha : a ≠ sep := fun heq => h (by simp [heq])
      have hrest : sep ∉ line := fun hmem => h (List.mem_cons_of_mem a hmem)
      rw [List.cons_append, lines, if_neg ha, ih hrest]

/-- Reading back complete lines and what follows them. -/
theorem lines_unlines_append {ls : List (List α)} (h : ∀ line ∈ ls, sep ∉ line) (rest : List α) :
    lines sep (unlines sep ls ++ rest) = ls ++ lines sep rest := by
  induction ls with
  | nil => rfl
  | cons line more ih =>
      rw [unlines_cons, List.append_assoc, List.cons_append,
        lines_append_sep sep (h line List.mem_cons_self),
        ih fun l hl => h l (List.mem_cons_of_mem line hl), List.cons_append]

theorem cutLine_none {buf : List α} (h : cutLine sep buf = none) : lines sep buf = [] := by
  induction buf with
  | nil => rfl
  | cons a rest ih =>
      unfold cutLine at h
      split at h
      · cases h
      · rename_i ha
        rw [Option.map_eq_none_iff] at h
        simp [lines, ha, ih h]

theorem cutLine_some {buf line rest : List α} (h : cutLine sep buf = some (line, rest)) :
    buf = line ++ sep :: rest ∧ lines sep buf = line :: lines sep rest ∧
      remainder sep buf = remainder sep rest := by
  induction buf generalizing line with
  | nil => cases h
  | cons a buf ih =>
      unfold cutLine at h
      split at h
      · rename_i ha
        simp only [Option.some.injEq, Prod.mk.injEq] at h
        rcases h with ⟨rfl, rfl⟩
        refine ⟨by simp [ha], by simp [lines, ha], ?_⟩
        rw [remainder, if_neg fun h => h.1 ha]
      · rename_i ha
        rw [Option.map_eq_some_iff] at h
        rcases h with ⟨⟨tail, after⟩, hcut, heq⟩
        simp only [Prod.mk.injEq] at heq
        rcases heq with ⟨rfl, rfl⟩
        obtain ⟨hbuf, hlines, hrem⟩ := ih hcut
        refine ⟨by rw [hbuf]; rfl, by simp [lines, ha, hlines], ?_⟩
        rw [remainder, if_neg fun h => by simp [hlines] at h, hrem]

/-! ## A text that ends -/

/-- The lines of a text that ends: the last one may lack its separator. -/
@[grind =] def getLines (buf : List α) : List (List α) :=
  let rest := remainder sep buf
  lines sep buf ++ if rest = [] then [] else [rest]

theorem getLines_ne_nil {buf : List α} (h : buf ≠ []) : getLines sep buf ≠ [] := by
  intro hnil
  obtain ⟨hlines, hrest⟩ := List.append_eq_nil_iff.mp hnil
  rw [remainder_of_lines_eq_nil sep hlines, if_neg h] at hrest
  cases hrest

theorem lines_eq_nil {buf : List α} (h : sep ∉ buf) : lines sep buf = [] := by
  cases hline : cutLine sep buf with
  | none => exact cutLine_none sep hline
  | some cut =>
      obtain ⟨first, rest⟩ := cut
      have hcut := (cutLine_some sep hline).1
      refine absurd ?_ h
      rw [hcut]
      simp

theorem getLines_single {line : List α} (h : sep ∉ line) (hne : line ≠ []) :
    getLines sep line = [line] := by
  have hlines := lines_eq_nil sep h
  rw [getLines, hlines, remainder_of_lines_eq_nil sep hlines, List.nil_append, if_neg hne]

theorem sep_not_mem_of_lines {buf : List α} (h : lines sep buf = []) : sep ∉ buf := by
  induction buf with
  | nil => exact List.not_mem_nil
  | cons a rest ih =>
      obtain ⟨ha, hrest⟩ := lines_cons_eq_nil sep h
      intro hmem
      rcases List.mem_cons.mp hmem with heq | hmem
      · exact ha heq.symm
      · exact ih hrest hmem

theorem not_mem_of_mem_getLines {buf line : List α} (h : line ∈ getLines sep buf) : sep ∉ line := by
  rcases List.mem_append.mp h with hline | hrest
  · exact not_mem_of_mem_lines sep buf line hline
  · split at hrest
    · cases hrest
    · obtain rfl := List.mem_singleton.mp hrest
      exact sep_not_mem_of_lines sep (lines_remainder sep buf)

theorem remainder_append_sep (line : List α) : remainder sep (line ++ [sep]) = [] := by
  induction line with
  | nil => simp [remainder]
  | cons a rest ih =>
      have hlines : lines sep (rest ++ [sep]) ≠ [] := fun hnil =>
        sep_not_mem_of_lines sep hnil (by simp)
      rw [List.cons_append, remainder, if_neg fun h => hlines h.2, ih]

theorem remainder_unlines (ls : List (List α)) : remainder sep (unlines sep ls) = [] := by
  induction ls with
  | nil => rfl
  | cons line more ih =>
      rw [unlines_cons, List.append_cons, remainder_append, remainder_append_sep, List.nil_append,
        ih]

/-- A text that is written line by line, where a line may go on behind a separator. -/
theorem getLines_unlines_eq (ls : List (List α)) :
    getLines sep (unlines sep ls) = ls.flatMap fun line => lines sep (line ++ [sep]) := by
  rw [getLines, remainder_unlines, if_pos rfl, List.append_nil]
  induction ls with
  | nil => rfl
  | cons line more ih =>
      rw [unlines_cons, List.append_cons, lines_append, remainder_append_sep, List.nil_append, ih,
        List.flatMap_cons]

theorem getLines_unlines {ls : List (List α)} (h : ∀ line ∈ ls, sep ∉ line) :
    getLines sep (unlines sep ls) = ls := by
  have hlines := lines_unlines_append sep h []
  rw [List.append_nil, lines, List.append_nil] at hlines
  rw [getLines, remainder_unlines, hlines, if_pos rfl, List.append_nil]

/-! ## Draining the buffer -/

/-- The reading loop: takes lines off the front of the buffer until there is no
complete one, or until `step` asks to drop the rest. -/
def drain (step : σ → List α → σ × Bool) : (fuel : Nat) → σ → List α → σ × List α
  | 0, s, buf => (s, buf)
  | fuel + 1, s, buf =>
      match cutLine sep buf with
      | none => (s, buf)
      | some (line, rest) =>
          let next := step s line
          if next.2 then (next.1, []) else drain step fuel next.1 rest

/-- One chunk: the bytes are appended to the buffer, and the buffer is drained. -/
def feed (step : σ → List α → σ × Bool) (reader : σ × List α) (chunk : List α) : σ × List α :=
  drain sep step (reader.2 ++ chunk).length reader.1 (reader.2 ++ chunk)

/-- The lines handled one after another, up to the first that drops the rest. -/
def consume (step : σ → List α → σ × Bool) (s : σ) : List (List α) → σ × Bool
  | [] => (s, false)
  | line :: more =>
      let next := step s line
      if next.2 then next else consume step next.1 more

variable (step : σ → List α → σ × Bool)

/-- A line takes at least one byte, so the fuel suffices. -/
theorem drain_eq (fuel : Nat) (s : σ) (buf : List α) (h : buf.length ≤ fuel) :
    drain sep step fuel s buf =
      ((consume step s (lines sep buf)).1,
        if (consume step s (lines sep buf)).2 then [] else remainder sep buf) := by
  induction fuel generalizing s buf with
  | zero =>
      rw [List.eq_nil_of_length_eq_zero (Nat.le_zero.mp h)]
      rfl
  | succ fuel ih =>
      unfold drain
      cases hcut : cutLine sep buf with
      | none =>
          have hlines := cutLine_none sep hcut
          rw [hlines, remainder_of_lines_eq_nil sep hlines]
          rfl
      | some cut =>
          rcases cut with ⟨line, rest⟩
          obtain ⟨hbuf, hlines, hrem⟩ := cutLine_some sep hcut
          have hlen : rest.length ≤ fuel := by
            rw [hbuf] at h
            simp only [List.length_append, List.length_cons] at h
            omega
          rw [hlines, hrem]
          dsimp only [consume]
          split
          · rfl
          · exact ih (step s line).1 rest hlen

theorem feed_eq (reader : σ × List α) (chunk : List α) :
    feed sep step reader chunk =
      ((consume step reader.1 (lines sep (reader.2 ++ chunk))).1,
        if (consume step reader.1 (lines sep (reader.2 ++ chunk))).2 then []
        else remainder sep (reader.2 ++ chunk)) :=
  drain_eq sep step _ reader.1 _ (Nat.le_refl _)

omit [DecidableEq α] in
theorem consume_append (s : σ) (before after : List (List α)) :
    consume step s (before ++ after) =
      if (consume step s before).2 then consume step s before
      else consume step (consume step s before).1 after := by
  induction before generalizing s with
  | nil => rfl
  | cons line more ih =>
      rw [List.cons_append]
      simp only [consume]
      by_cases hstop : (step s line).2 = true
      · simp only [if_pos hstop]
      · simp only [if_neg hstop]
        exact ih (step s line).1

/-- After a chunk there is no complete line left in the buffer. -/
theorem feed_settled (reader : σ × List α) (chunk : List α) :
    lines sep (feed sep step reader chunk).2 = [] := by
  rw [feed_eq]
  dsimp only
  split
  · rfl
  · exact lines_remainder sep _

/-- Two readers whose steps keep a relation, and drop the rest at the same lines,
keep it over every chunk. -/
theorem feed_simulates {τ : Type*} {step' : τ → List α → τ × Bool} {R : σ → τ → Prop}
    (hstep : ∀ s t line, R s t →
      R (step s line).1 (step' t line).1 ∧ (step s line).2 = (step' t line).2)
    {s : σ} {t : τ} (h : R s t) (buf chunk : List α) :
    R (feed sep step (s, buf) chunk).1 (feed sep step' (t, buf) chunk).1 ∧
      (feed sep step (s, buf) chunk).2 = (feed sep step' (t, buf) chunk).2 := by
  have hconsume : ∀ ls : List (List α), ∀ s t, R s t →
      R (consume step s ls).1 (consume step' t ls).1 ∧
        (consume step s ls).2 = (consume step' t ls).2 := by
    intro ls
    induction ls with
    | nil => exact fun s t h => ⟨h, rfl⟩
    | cons line more ih =>
        intro s t h
        obtain ⟨hrel, hstop⟩ := hstep s t line h
        simp only [consume, ← hstop]
        split
        · exact ⟨hrel, hstop⟩
        · exact ih _ _ hrel
  obtain ⟨hrel, hstop⟩ := hconsume (lines sep (buf ++ chunk)) s t h
  rw [feed_eq, feed_eq]
  exact ⟨hrel, by simp only [hstop]⟩

/-! ## Readers that drop nothing -/

section NoDrop

variable (hstep : ∀ s line, (step s line).2 = false)
include hstep

omit [DecidableEq α] in
theorem consume_not_stopped (s : σ) (ls : List (List α)) : (consume step s ls).2 = false := by
  induction ls generalizing s with
  | nil => rfl
  | cons line more ih =>
      simp only [consume, hstep, Bool.false_eq_true, if_false]
      exact ih (step s line).1

/-- Two chunks are handled like one. -/
theorem feed_feed (reader : σ × List α) (a b : List α) :
    feed sep step (feed sep step reader a) b = feed sep step reader (a ++ b) := by
  simp only [feed_eq, consume_not_stopped step hstep, Bool.false_eq_true, if_false]
  rw [← List.append_assoc, lines_append sep (reader.2 ++ a) b,
    remainder_append sep (reader.2 ++ a) b, consume_append, consume_not_stopped step hstep,
    if_neg Bool.false_ne_true]

/-- However the stream is cut, the reader ends in the same state with the same
bytes unread. -/
theorem foldl_feed (reader : σ × List α) (hreader : lines sep reader.2 = [])
    (chunks : List (List α)) :
    chunks.foldl (feed sep step) reader = feed sep step reader chunks.flatten := by
  induction chunks generalizing reader with
  | nil =>
      rw [List.foldl_nil, List.flatten_nil, feed_eq, List.append_nil, hreader,
        remainder_of_lines_eq_nil sep hreader]
      rfl
  | cons chunk more ih =>
      rw [List.foldl_cons, ih _ (feed_settled sep step reader chunk), feed_feed sep step hstep,
        List.flatten_cons]

end NoDrop

/-! ## Readers that drop the buffer at certain lines -/

section Drop

variable (isStop : List α → Bool)

/-- The lines in front of the first stop line. -/
def beforeStop (buf : List α) : List (List α) :=
  (lines sep buf).takeWhile fun line => !isStop line

/-- The bytes behind the first stop line. -/
def behindStop (buf : List α) : Option (List α) :=
  match (lines sep buf).dropWhile fun line => !isStop line with
  | [] => none
  | _ :: more => some (unlines sep more ++ remainder sep buf)

/-- The lines handled one after another, none of which drops anything. -/
def run (s : σ) (ls : List (List α)) : σ := ls.foldl (fun s line => (step s line).1) s

omit [DecidableEq α] in
theorem run_append (s : σ) (ls ls' : List (List α)) :
    run step s (ls ++ ls') = run step (run step s ls) ls' := List.foldl_append

theorem behindStop_eq_none {buf : List α} :
    behindStop sep isStop buf = none ↔ ∀ line ∈ lines sep buf, isStop line = false := by
  unfold behindStop
  cases h : (lines sep buf).dropWhile fun line => !isStop line with
  | nil => simpa [List.dropWhile_eq_nil_iff] using h
  | cons stop more =>
      simp only [reduceCtorEq, false_iff]
      intro hall
      have hnil : (lines sep buf).dropWhile (fun line => !isStop line) = [] := by
        rw [List.dropWhile_eq_nil_iff]
        intro line hline
        simp [hall line hline]
      rw [h] at hnil
      cases hnil

theorem beforeStop_of_no_stop {buf : List α}
    (h : ∀ line ∈ lines sep buf, isStop line = false) :
    beforeStop sep isStop buf = lines sep buf := by
  unfold beforeStop
  rw [List.takeWhile_eq_self_iff]
  intro line hline
  simp [h line hline]

theorem beforeStop_unlines_append {ls : List (List α)}
    (hls : ∀ line ∈ ls, sep ∉ line ∧ isStop line = false) (rest : List α) :
    beforeStop sep isStop (unlines sep ls ++ rest) = ls ++ beforeStop sep isStop rest := by
  unfold beforeStop
  rw [lines_unlines_append sep fun line hline => (hls line hline).1,
    List.takeWhile_append_of_pos]
  intro line hline
  simp [(hls line hline).2]

/-- What the first stop line splits the lines into. -/
theorem behindStop_split {buf behind : List α} (h : behindStop sep isStop buf = some behind) :
    ∃ stop more, lines sep buf = beforeStop sep isStop buf ++ stop :: more ∧
      isStop stop = true ∧ (∀ line ∈ beforeStop sep isStop buf, isStop line = false) ∧
      behind = unlines sep more ++ remainder sep buf := by
  unfold behindStop at h
  cases hd : (lines sep buf).dropWhile fun line => !isStop line with
  | nil => simp [hd] at h
  | cons stop more =>
      simp only [hd, Option.some.injEq] at h
      refine ⟨stop, more, ?_, ?_, ?_, h.symm⟩
      · rw [← hd]
        exact List.takeWhile_append_dropWhile.symm
      · have hne : (lines sep buf).dropWhile (fun line => !isStop line) ≠ [] := by simp [hd]
        have hhead := List.head_dropWhile_not (fun line => !isStop line) hne
        simpa [hd] using hhead
      · intro line hline
        unfold beforeStop at hline
        have hpass := List.mem_takeWhile_imp (p := fun line => !isStop line) hline
        simpa using hpass

theorem split_behindStop {buf stop : List α} {before more : List (List α)}
    (hlines : lines sep buf = before ++ stop :: more) (hstop : isStop stop = true)
    (hbefore : ∀ line ∈ before, isStop line = false) :
    beforeStop sep isStop buf = before ∧
      behindStop sep isStop buf = some (unlines sep more ++ remainder sep buf) := by
  have hpass : ∀ line ∈ before, (!isStop line) = true := fun line hline => by
    simp [hbefore line hline]
  constructor
  · unfold beforeStop
    rw [hlines, List.takeWhile_append_of_pos hpass, List.takeWhile_cons_of_neg (by simp [hstop]),
      List.append_nil]
  · unfold behindStop
    rw [hlines, List.dropWhile_append_of_pos hpass, List.dropWhile_cons_of_neg (by simp [hstop])]

/-- A stop line already read decides what is in front of it and behind it. -/
theorem stop_append {buf behind : List α} (h : behindStop sep isStop buf = some behind)
    (more : List α) :
    beforeStop sep isStop (buf ++ more) = beforeStop sep isStop buf ∧
      behindStop sep isStop (buf ++ more) = some (behind ++ more) := by
  obtain ⟨stop, others, hlines, hstop, hbefore, rfl⟩ := behindStop_split sep isStop h
  have hwhole : lines sep (buf ++ more) = beforeStop sep isStop buf ++
      stop :: (others ++ lines sep (remainder sep buf ++ more)) := by
    rw [lines_append, hlines, List.append_assoc, List.cons_append]
  obtain ⟨h₁, h₂⟩ := split_behindStop sep isStop hwhole hstop hbefore
  refine ⟨h₁, ?_⟩
  rw [h₂, unlines_append, remainder_append, List.append_assoc, List.append_assoc, unlines_lines]

/-- The stream up to and with its first stop line. -/
theorem exists_front {stream behind : List α}
    (h : behindStop sep isStop stream = some behind) :
    ∃ front, stream = front ++ behind ∧ beforeStop sep isStop front = beforeStop sep isStop stream ∧
      behindStop sep isStop front = some [] := by
  obtain ⟨stop, more, hlines, hstop, hbefore, rfl⟩ := behindStop_split sep isStop h
  have hsplit : lines sep stream = (beforeStop sep isStop stream ++ [stop]) ++ more := by
    simpa using hlines
  have hnosep : ∀ line ∈ beforeStop sep isStop stream ++ [stop], sep ∉ line := fun line hline =>
    not_mem_of_mem_lines sep stream line (by rw [hsplit]; exact List.mem_append_left _ hline)
  have hfront : lines sep (unlines sep (beforeStop sep isStop stream ++ [stop])) =
      beforeStop sep isStop stream ++ [stop] := by
    have := lines_unlines_append sep hnosep []
    rwa [List.append_nil, lines, List.append_nil] at this
  have hrem : remainder sep (unlines sep (beforeStop sep isStop stream ++ [stop])) = [] := by
    have := unlines_lines sep (unlines sep (beforeStop sep isStop stream ++ [stop]))
    rw [hfront] at this
    exact List.append_right_eq_self.mp this
  obtain ⟨h₁, h₂⟩ := split_behindStop sep isStop hfront hstop hbefore
  refine ⟨_, ?_, h₁, ?_⟩
  · rw [← List.append_assoc, ← unlines_append, ← hsplit, unlines_lines]
  · rw [h₂, hrem]
    rfl

/-- Without a stop line so far, what counts is the unread rest and what follows. -/
theorem no_stop_append {buf : List α} (h : ∀ line ∈ lines sep buf, isStop line = false)
    (more : List α) :
    beforeStop sep isStop (buf ++ more) =
        lines sep buf ++ beforeStop sep isStop (remainder sep buf ++ more) ∧
      behindStop sep isStop (buf ++ more) = behindStop sep isStop (remainder sep buf ++ more) := by
  have hpass : ∀ line ∈ lines sep buf, (!isStop line) = true := fun line hline => by
    simp [h line hline]
  constructor
  · unfold beforeStop
    rw [lines_append, List.takeWhile_append_of_pos hpass]
  · unfold behindStop
    rw [lines_append, List.dropWhile_append_of_pos hpass, remainder_append]

variable (hstop : ∀ s line, (step s line).2 = isStop line)
  (hkeep : ∀ s line, isStop line = true → (step s line).1 = s)
include hstop hkeep

omit [DecidableEq α] in
theorem consume_eq (s : σ) (ls : List (List α)) :
    consume step s ls =
      (run step s (ls.takeWhile fun line => !isStop line), ls.any isStop) := by
  induction ls generalizing s with
  | nil => rfl
  | cons line more ih =>
      unfold consume
      cases hline : isStop line with
      | true =>
          have hs : step s line = (s, true) := Prod.ext (hkeep s line hline)
            ((hstop s line).trans hline)
          simp [hs, hline, run]
      | false =>
          have hs : (step s line).2 = false := (hstop s line).trans hline
          simp only [hs, Bool.false_eq_true, if_false, List.any_cons, hline, Bool.false_or]
          rw [ih, List.takeWhile_cons_of_pos (by simp [hline])]
          rfl

theorem feed_of_no_stop (s : σ) (buf chunk : List α)
    (h : ∀ line ∈ lines sep (buf ++ chunk), isStop line = false) :
    feed sep step (s, buf) chunk =
      (run step s (lines sep (buf ++ chunk)), remainder sep (buf ++ chunk)) := by
  have hany : (lines sep (buf ++ chunk)).any isStop = false := by
    rw [List.any_eq_false]
    intro line hline
    simp [h line hline]
  have hbefore : (lines sep (buf ++ chunk)).takeWhile (fun line => !isStop line) =
      lines sep (buf ++ chunk) := beforeStop_of_no_stop sep isStop h
  rw [feed_eq]
  dsimp only
  rw [consume_eq step isStop hstop hkeep, hany, hbefore]
  rfl

theorem feed_of_stop (s : σ) (buf chunk : List α) {behind : List α}
    (h : behindStop sep isStop (buf ++ chunk) = some behind) :
    feed sep step (s, buf) chunk = (run step s (beforeStop sep isStop (buf ++ chunk)), []) := by
  have hany : (lines sep (buf ++ chunk)).any isStop = true := by
    rw [← Bool.not_eq_false, List.any_eq_false]
    intro hnone
    have : behindStop sep isStop (buf ++ chunk) = none := by
      rw [behindStop_eq_none]
      intro line hline
      simpa using hnone line hline
    rw [this] at h
    cases h
  rw [feed_eq]
  dsimp only
  rw [consume_eq step isStop hstop hkeep, hany]
  rfl

/-- A stream without a stop line is read as if nothing were ever dropped. -/
theorem foldl_feed_of_no_stop (s : σ) (buf : List α) (hbuf : lines sep buf = [])
    (chunks : List (List α))
    (h : ∀ line ∈ lines sep (buf ++ chunks.flatten), isStop line = false) :
    chunks.foldl (feed sep step) (s, buf) =
      (run step s (lines sep (buf ++ chunks.flatten)),
        remainder sep (buf ++ chunks.flatten)) := by
  induction chunks generalizing s buf with
  | nil =>
      rw [List.flatten_nil, List.append_nil, hbuf, remainder_of_lines_eq_nil sep hbuf]
      rfl
  | cons chunk more ih =>
      rw [List.flatten_cons, ← List.append_assoc, lines_append] at h ⊢
      rw [remainder_append sep (buf ++ chunk), List.foldl_cons,
        feed_of_no_stop sep step isStop hstop hkeep s buf chunk
          fun line hline => h line (List.mem_append_left _ hline)]
      rw [ih _ _ (lines_remainder sep _) fun line hline => h line (List.mem_append_right _ hline),
        run_append]

section Observed

variable (obs : σ → ω)
  (hobs : ∀ s s' line, obs s = obs s' → obs (step s line).1 = obs (step s' line).1)
include hobs

omit [DecidableEq α] hstop hkeep in
theorem obs_run {s s' : σ} (h : obs s = obs s') (ls : List (List α)) :
    obs (run step s ls) = obs (run step s' ls) := by
  induction ls generalizing s s' with
  | nil => exact h
  | cons line more ih => exact ih (hobs s s' line h)

/-- Behind a stop line: as long as nothing that can follow it changes what is
observed, no way of cutting it does. `handled` are the lines handled since the
last time the buffer was dropped. -/
theorem foldl_feed_quiet {s₀ : σ} {behind : List α}
    (hquiet : ∀ t, t <:+ behind → obs (run step s₀ (beforeStop sep isStop t)) = obs s₀)
    (chunks : List (List α)) (handled : List (List α)) (s : σ) (buf : List α)
    (hbuf : lines sep buf = []) (hhandled : ∀ line ∈ handled, sep ∉ line ∧ isStop line = false)
    (hs : obs s = obs (run step s₀ handled))
    (hsuffix : unlines sep handled ++ (buf ++ chunks.flatten) <:+ behind) :
    obs (chunks.foldl (feed sep step) (s, buf)).1 = obs s₀ := by
  induction chunks generalizing handled s buf with
  | nil =>
      have hq := hquiet _ hsuffix
      rw [List.flatten_nil, List.append_nil, beforeStop_unlines_append sep isStop hhandled] at hq
      have hnone : beforeStop sep isStop buf = [] := by
        unfold beforeStop
        rw [hbuf]
        rfl
      rw [hnone, List.append_nil] at hq
      exact hs.trans hq
  | cons chunk more ih =>
      rw [List.foldl_cons]
      rw [List.flatten_cons, ← List.append_assoc buf] at hsuffix
      cases hb : behindStop sep isStop (buf ++ chunk) with
      | some rest =>
          rw [feed_of_stop sep step isStop hstop hkeep s buf chunk hb]
          have hq := hquiet _ hsuffix
          rw [beforeStop_unlines_append sep isStop hhandled,
            (stop_append sep isStop hb more.flatten).1, run_append] at hq
          refine ih [] _ [] rfl (by simp) ?_ ?_
          · exact (obs_run step obs hobs hs _).trans hq
          · have htail : more.flatten <:+ unlines sep handled ++ (buf ++ chunk) ++ more.flatten :=
              List.suffix_append _ _
            rw [List.append_assoc] at htail
            exact htail.trans hsuffix
      | none =>
          have hno := (behindStop_eq_none sep isStop).mp hb
          rw [feed_of_no_stop sep step isStop hstop hkeep s buf chunk hno]
          refine ih (handled ++ lines sep (buf ++ chunk)) _ _ (lines_remainder sep _) ?_ ?_ ?_
          · intro line hline
            rcases List.mem_append.mp hline with hline | hline
            · exact hhandled line hline
            · exact ⟨not_mem_of_mem_lines sep _ line hline, hno line hline⟩
          · rw [run_append]
            exact obs_run step obs hobs hs _
          · rw [unlines_append, List.append_assoc, ← List.append_assoc (unlines sep (lines _ _)),
              unlines_lines]
            exact hsuffix

/-- In front of the first stop line cuts do not matter; behind it they do not as
long as nothing there changes what is observed. -/
theorem foldl_feed_of_stop {s₀ : σ} {behind : List α}
    (hquiet : ∀ t, t <:+ behind → obs (run step s₀ (beforeStop sep isStop t)) = obs s₀)
    (chunks : List (List α)) (s : σ) (buf : List α) (hbuf : lines sep buf = [])
    (hbehind : behindStop sep isStop (buf ++ chunks.flatten) = some behind)
    (hs₀ : run step s (beforeStop sep isStop (buf ++ chunks.flatten)) = s₀) :
    obs (chunks.foldl (feed sep step) (s, buf)).1 = obs s₀ := by
  induction chunks generalizing s buf with
  | nil =>
      rw [List.flatten_nil, List.append_nil, (behindStop_eq_none sep isStop).mpr] at hbehind
      · cases hbehind
      · simp [hbuf]
  | cons chunk more ih =>
      rw [List.flatten_cons, ← List.append_assoc] at hbehind hs₀
      rw [List.foldl_cons]
      cases hb : behindStop sep isStop (buf ++ chunk) with
      | some rest =>
          obtain ⟨hsame, hrest⟩ := stop_append sep isStop hb more.flatten
          rw [hrest, Option.some.injEq] at hbehind
          rw [hsame] at hs₀
          rw [feed_of_stop sep step isStop hstop hkeep s buf chunk hb, hs₀]
          refine foldl_feed_quiet sep step isStop hstop hkeep obs hobs hquiet more [] s₀ [] rfl
            (by simp) rfl ?_
          rw [← hbehind]
          exact List.suffix_append _ _
      | none =>
          have hno := (behindStop_eq_none sep isStop).mp hb
          obtain ⟨hlines, hsame⟩ := no_stop_append sep isStop hno more.flatten
          rw [hsame] at hbehind
          rw [hlines, run_append] at hs₀
          rw [feed_of_no_stop sep step isStop hstop hkeep s buf chunk hno]
          exact ih _ _ (lines_remainder sep _) hbehind hs₀

/-- Every way of cutting the stream is observed alike exactly when, behind the
first stop line, no suffix of the stream has lines that change what is observed,
up to its own first stop line. -/
theorem splits_agree_iff (s : σ) (stream : List α) :
    (∀ chunks : List (List α), chunks.flatten = stream →
      obs (chunks.foldl (feed sep step) (s, [])).1 = obs (feed sep step (s, []) stream).1) ↔
    ∀ behind, behindStop sep isStop stream = some behind → ∀ t, t <:+ behind →
      obs (run step (run step s (beforeStop sep isStop stream)) (beforeStop sep isStop t)) =
        obs (run step s (beforeStop sep isStop stream)) := by
  constructor
  · intro hagree behind hbehind t ht
    rcases ht with ⟨v, rfl⟩
    obtain ⟨front, hfront, hbefore, hnil⟩ := exists_front sep isStop hbehind
    obtain ⟨hbefore', hbehind'⟩ := stop_append sep isStop hnil v
    -- cut the stream where the suffix starts
    have hcut := hagree [front ++ v, t] (by simp [hfront])
    rw [List.foldl_cons, List.foldl_cons, List.foldl_nil,
      feed_of_stop sep step isStop hstop hkeep s [] (front ++ v) hbehind',
      feed_of_stop sep step isStop hstop hkeep s [] stream hbehind, List.nil_append,
      List.nil_append, hbefore', hbefore] at hcut
    have hconsume : (feed sep step (run step s (beforeStop sep isStop stream), []) t).1 =
        run step (run step s (beforeStop sep isStop stream)) (beforeStop sep isStop t) := by
      rw [feed_eq]
      dsimp only
      rw [consume_eq step isStop hstop hkeep]
      rfl
    rw [hconsume] at hcut
    exact hcut
  · intro hquiet chunks hchunks
    cases hb : behindStop sep isStop stream with
    | none =>
        have hno := (behindStop_eq_none sep isStop).mp hb
        rw [foldl_feed_of_no_stop sep step isStop hstop hkeep s [] rfl chunks
          (by rwa [hchunks]), feed_of_no_stop sep step isStop hstop hkeep s [] stream hno, hchunks]
    | some behind =>
        rw [feed_of_stop sep step isStop hstop hkeep s [] stream hb]
        refine foldl_feed_of_stop sep step isStop hstop hkeep obs hobs (hquiet behind hb) chunks s
          []
          rfl ?_ ?_
        · rw [List.nil_append, hchunks]
          exact hb
        · rw [List.nil_append, hchunks]

end Observed

end Drop

end JiuwenCore.LineFeed
