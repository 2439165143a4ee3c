import Mathlib.Data.List.Chain
import Mathlib.Data.List.Infix

/-!
# Blocks of a stream

A stream is cut into blocks where two separators follow each other. A reader keeps what is behind
the last block until more arrives. It does not notice in which pieces the stream arrives, and
where lines that are not empty are joined to blocks it finds those.
-/

namespace JiuwenCore.EventStream

variable {α : Type*} [DecidableEq α] (sep : α)

/-- The first block and what is behind it. -/
def cut : List α → Option (List α × List α)
  | [] => none
  | [_] => none
  | a :: b :: rest =>
      if a = sep ∧ b = sep then some ([], rest)
      else (cut (b :: rest)).map fun parts => (a :: parts.1, parts.2)

/-- The blocks of a buffer, and what is left of it, in so many rounds at most. -/
@[grind =] def drain : Nat → List α → List (List α) × List α
  | 0, buf => ([], buf)
  | rounds + 1, buf =>
      match cut sep buf with
      | none => ([], buf)
      | some (block, rest) =>
          let more := drain rounds rest
          (block :: more.1, more.2)

/-- A piece arrives. -/
def feed (seen : List (List α) × List α) (piece : List α) : List (List α) × List α :=
  let buf := seen.2 ++ piece
  let drained := drain sep buf.length buf
  (seen.1 ++ drained.1, drained.2)

variable {sep}

theorem cut_eq_some {buf block rest : List α} (h : cut sep buf = some (block, rest)) :
    buf = block ++ (sep :: sep :: rest) := by
  induction buf generalizing block with
  | nil => cases h
  | cons a tail ih =>
      cases tail with
      | nil => cases h
      | cons b tail =>
          rw [cut] at h
          split at h
          · rename_i hboth
            cases h
            rw [hboth.1, hboth.2]
            rfl
          · obtain ⟨parts, hparts, heq⟩ := Option.map_eq_some_iff.mp h
            cases heq
            rw [ih hparts]
            rfl

theorem cut_length {buf block rest : List α} (h : cut sep buf = some (block, rest)) :
    rest.length + 2 ≤ buf.length := by
  have hlength := congrArg List.length (cut_eq_some h)
  simp only [List.length_append, List.length_cons] at hlength
  omega

/-- A block is found where it was, whatever arrives behind it. -/
theorem cut_append {buf block rest : List α} (h : cut sep buf = some (block, rest))
    (more : List α) : cut sep (buf ++ more) = some (block, rest ++ more) := by
  induction buf generalizing block with
  | nil => cases h
  | cons a tail ih =>
      cases tail with
      | nil => cases h
      | cons b tail =>
          rw [cut] at h
          rw [List.cons_append, List.cons_append, cut]
          split at h
          · rename_i hboth
            cases h
            rw [if_pos hboth]
          · rename_i hboth
            obtain ⟨parts, hparts, heq⟩ := Option.map_eq_some_iff.mp h
            cases heq
            have hmore := ih hparts
            rw [List.cons_append] at hmore
            rw [if_neg hboth, hmore]
            rfl

theorem drain_mono {rounds more : Nat} {buf : List α} (h : buf.length ≤ rounds)
    (hle : rounds ≤ more) : drain sep more buf = drain sep rounds buf := by
  induction rounds generalizing more buf with
  | zero =>
      have hnil : buf = [] := List.eq_nil_of_length_eq_zero (Nat.le_zero.mp h)
      rw [hnil]
      cases more <;> rfl
  | succ rounds ih =>
      obtain ⟨more, rfl⟩ := Nat.exists_eq_add_of_le' (Nat.lt_of_lt_of_le (Nat.succ_pos _) hle)
      rw [drain, drain]
      cases hcut : cut sep buf with
      | none => rfl
      | some parts =>
          have hlength := cut_length hcut
          dsimp only
          rw [ih (by omega) (Nat.le_of_succ_le_succ hle)]

theorem drain_left (rounds : Nat) (buf : List α) :
    (drain sep rounds buf).2.length ≤ buf.length := by
  induction rounds generalizing buf with
  | zero => exact Nat.le_refl _
  | succ rounds ih =>
      rw [drain]
      cases hcut : cut sep buf with
      | none => exact Nat.le_refl _
      | some parts =>
          have hlength := cut_length hcut
          exact Nat.le_trans (ih parts.2) (by omega)

/-- The blocks of a longer buffer: what was left goes on. -/
theorem drain_append {rounds : Nat} {buf more : List α} (h : (buf ++ more).length ≤ rounds) :
    drain sep rounds (buf ++ more) =
      ((drain sep rounds buf).1 ++ (drain sep rounds ((drain sep rounds buf).2 ++ more)).1,
        (drain sep rounds ((drain sep rounds buf).2 ++ more)).2) := by
  induction rounds generalizing buf with
  | zero => simp [drain]
  | succ rounds ih =>
      cases hcut : cut sep buf with
      | none =>
          have hnone : drain sep (rounds + 1) buf = ([], buf) := by rw [drain, hcut]
          rw [hnone]
          rfl
      | some parts =>
          have hlength := cut_length hcut
          have hbuf : drain sep (rounds + 1) buf =
              (parts.1 :: (drain sep rounds parts.2).1, (drain sep rounds parts.2).2) := by
            rw [drain, hcut]
          have hlong : drain sep (rounds + 1) (buf ++ more) =
              (parts.1 :: (drain sep rounds (parts.2 ++ more)).1,
                (drain sep rounds (parts.2 ++ more)).2) := by
            rw [drain, cut_append hcut]
          have hshort : (parts.2 ++ more).length ≤ rounds := by
            rw [List.length_append] at h ⊢
            omega
          have hleft : ((drain sep rounds parts.2).2 ++ more).length ≤ rounds := by
            have hle : (drain sep rounds parts.2).2.length ≤ parts.2.length :=
              drain_left rounds parts.2
            rw [List.length_append] at hshort ⊢
            omega
          rw [hlong, hbuf, ih hshort]
          dsimp only
          rw [drain_mono hleft (Nat.le_succ rounds)]
          rfl

/-- What a reader has seen of a stream that arrives in pieces. -/
def readAll (sep : α) (pieces : List (List α)) : List (List α) × List α :=
  pieces.foldl (feed sep) ([], [])

/-- The reader does not notice the pieces. -/
theorem readAll_eq (pieces : List (List α)) :
    readAll sep pieces = drain sep pieces.flatten.length pieces.flatten := by
  induction pieces using List.reverseRecOn with
  | nil => rfl
  | append_singleton pieces piece ih =>
      rw [readAll, List.foldl_append, ← readAll, ih]
      have hleft : (drain sep pieces.flatten.length pieces.flatten).2.length ≤
          pieces.flatten.length := drain_left pieces.flatten.length pieces.flatten
      have hwhole : (pieces ++ [piece]).flatten = pieces.flatten ++ piece := by simp
      have hmono : ∀ {buf : List α}, buf.length ≤ (pieces.flatten ++ piece).length →
          drain sep (pieces.flatten ++ piece).length buf = drain sep buf.length buf :=
        fun hle => drain_mono (Nat.le_refl _) hle
      rw [hwhole, drain_append (Nat.le_refl _), hmono (by simp),
        hmono (by rw [List.length_append, List.length_append]; omega)]
      rfl

/-! ## Blocks of lines -/

/-- No two separators follow each other. -/
def Solid (sep : α) (l : List α) : Prop := l.IsChain fun a b => ¬ (a = sep ∧ b = sep)

theorem cut_eq_none {buf : List α} (h : Solid sep buf) : cut sep buf = none := by
  induction buf with
  | nil => rfl
  | cons a tail ih =>
      cases tail with
      | nil => rfl
      | cons b tail =>
          obtain ⟨hpair, htail⟩ := List.isChain_cons_cons.mp h
          rw [cut, if_neg hpair, ih htail]
          rfl

theorem cut_solid {block : List α} (h : Solid sep (block ++ [sep])) (rest : List α) :
    cut sep (block ++ (sep :: sep :: rest)) = some (block, rest) := by
  induction block with
  | nil =>
      rw [List.nil_append, cut, if_pos ⟨rfl, rfl⟩]
  | cons a tail ih =>
      cases tail with
      | nil =>
          obtain ⟨hpair, -⟩ := List.isChain_cons_cons.mp h
          have hrest : cut sep (sep :: sep :: rest) = some ([], rest) := by
            rw [cut, if_pos ⟨rfl, rfl⟩]
          rw [List.cons_append, List.nil_append, cut, if_neg hpair, hrest]
          rfl
      | cons b tail =>
          obtain ⟨hpair, htail⟩ := List.isChain_cons_cons.mp h
          have hrest := ih htail
          rw [List.cons_append] at hrest
          rw [List.cons_append, List.cons_append, cut, if_neg hpair, hrest]
          rfl

/-- The blocks, each with its two separators. -/
def write (sep : α) (blocks : List (List α)) : List α :=
  blocks.flatMap fun block => block ++ [sep, sep]

/-- The blocks that were written are what is found, and a part of another block is left. -/
theorem drain_write {blocks : List (List α)} (h : ∀ block ∈ blocks, Solid sep (block ++ [sep]))
    {tail : List α} (htail : Solid sep tail) {rounds : Nat}
    (hrounds : (write sep blocks ++ tail).length ≤ rounds) :
    drain sep rounds (write sep blocks ++ tail) = (blocks, tail) := by
  induction blocks generalizing rounds with
  | nil =>
      cases rounds with
      | zero =>
          have hnil : tail = [] := List.eq_nil_of_length_eq_zero (Nat.le_zero.mp hrounds)
          rw [hnil]
          rfl
      | succ rounds =>
          rw [write, List.flatMap_nil, List.nil_append, drain, cut_eq_none htail]
  | cons block blocks ih =>
      obtain ⟨hblock, hblocks⟩ := List.forall_mem_cons.mp h
      have hsplit : write sep (block :: blocks) ++ tail =
          block ++ (sep :: sep :: (write sep blocks ++ tail)) := by
        rw [write, List.flatMap_cons, write, List.append_assoc, List.append_assoc]
        rfl
      rw [hsplit] at hrounds ⊢
      simp only [List.length_append, List.length_cons] at hrounds
      cases rounds with
      | zero => omega
      | succ rounds =>
          rw [drain, cut_solid hblock]
          dsimp only
          rw [ih hblocks (by rw [List.length_append]; omega)]

/-- There is no separator in what lies between two of them. -/
theorem not_mem_of_splitOn {l line : List α} (h : line ∈ l.splitOn sep) : sep ∉ line := by
  induction l generalizing line with
  | nil =>
      rw [List.splitOn_nil, List.mem_singleton] at h
      rw [h]
      exact List.not_mem_nil
  | cons a l ih =>
      rw [List.splitOn_cons_eq_if_modifyHead] at h
      split at h
      · rcases List.mem_cons.mp h with rfl | h
        · exact List.not_mem_nil
        · exact ih h
      · rename_i hne
        obtain ⟨first, rest, heq⟩ := List.exists_cons_of_ne_nil (List.splitOn_ne_nil sep l)
        rw [heq, List.modifyHead_cons] at h
        rcases List.mem_cons.mp h with rfl | h
        · have hfirst := ih (show first ∈ l.splitOn sep by rw [heq]; exact List.mem_cons_self)
          rw [List.mem_cons, not_or]
          exact ⟨fun hsep => hne (by rw [hsep, beq_self_eq_true]), hfirst⟩
        · exact ih (show line ∈ l.splitOn sep by rw [heq]; exact List.mem_cons_of_mem _ h)

section

omit [DecidableEq α]

theorem solid_of_not_mem {l : List α} (h : sep ∉ l) : Solid sep l := by
  induction l with
  | nil => exact List.IsChain.nil
  | cons a l ih =>
      cases l with
      | nil => exact List.IsChain.singleton a
      | cons b l =>
          rw [List.mem_cons, not_or] at h
          exact List.isChain_cons_cons.mpr ⟨fun hboth => h.1 hboth.1.symm, ih h.2⟩

theorem solid_line {line : List α} (hsep : sep ∉ line) : Solid sep (line ++ [sep]) := by
  refine List.isChain_append.mpr ⟨solid_of_not_mem hsep, List.IsChain.singleton sep, ?_⟩
  rintro x hx y - ⟨rfl, -⟩
  exact hsep (List.mem_of_getLast? hx)

/-- Lines that are not empty make a block. -/
theorem solid_intercalate {lines : List (List α)} (hsep : ∀ line ∈ lines, sep ∉ line)
    (hne : ∀ line ∈ lines, line ≠ []) : Solid sep ([sep].intercalate lines ++ [sep]) := by
  induction lines with
  | nil => exact List.IsChain.singleton sep
  | cons line lines ih =>
      obtain ⟨hfirst, hrest⟩ := List.forall_mem_cons.mp hsep
      obtain ⟨-, hnerest⟩ := List.forall_mem_cons.mp hne
      cases lines with
      | nil =>
          rw [List.intercalate_singleton]
          exact solid_line hfirst
      | cons next lines =>
          rw [List.intercalate_cons_cons, List.append_assoc]
          refine List.isChain_append.mpr ⟨solid_line hfirst, ih hrest hnerest, ?_⟩
          rintro x - y hy ⟨-, rfl⟩
          obtain ⟨b, tail, hnext⟩ := List.exists_cons_of_ne_nil (hnerest next List.mem_cons_self)
          have hhead : ([y].intercalate (next :: lines) ++ [y]).head? = some b := by
            cases lines with
            | nil => rw [List.intercalate_singleton, hnext]; rfl
            | cons more lines => rw [List.intercalate_cons_cons, hnext]; rfl
          rw [hhead] at hy
          cases hy
          exact hrest next List.mem_cons_self (by rw [hnext]; exact List.mem_cons_self)

theorem write_cons (block : List α) (blocks : List (List α)) :
    write sep (block :: blocks) = block ++ (sep :: sep :: write sep blocks) := by
  rw [write, List.flatMap_cons, List.append_assoc]
  rfl

/-- What has come of the blocks is some of them and a part of the next one. -/
theorem prefix_write {blocks : List (List α)} (h : ∀ block ∈ blocks, Solid sep (block ++ [sep]))
    {front : List α} (hfront : front <+: write sep blocks) :
    ∃ seen tail, seen <+: blocks ∧ Solid sep tail ∧ front = write sep seen ++ tail := by
  induction blocks generalizing front with
  | nil =>
      rw [List.prefix_nil.mp hfront]
      exact ⟨[], [], List.nil_prefix, List.IsChain.nil, rfl⟩
  | cons block blocks ih =>
      obtain ⟨hblock, hblocks⟩ := List.forall_mem_cons.mp h
      have hsplit : write sep (block :: blocks) = (block ++ [sep, sep]) ++ write sep blocks := rfl
      rw [hsplit] at hfront
      rcases List.prefix_or_prefix_of_prefix hfront (List.prefix_append _ _) with
        hshort | ⟨rest, rfl⟩
      · rcases List.prefix_concat_iff.mp (show front <+: (block ++ [sep]) ++ [sep] by
          rw [List.append_assoc]; exact hshort) with rfl | hpart
        · refine ⟨[block], [], List.prefix_cons_inj block |>.mpr List.nil_prefix,
            List.IsChain.nil, ?_⟩
          rw [write_cons, List.append_assoc, List.append_nil]
          rfl
        · exact ⟨[], front, List.nil_prefix, hblock.prefix hpart, rfl⟩
      · obtain ⟨seen, tail, hseen, htail, rfl⟩ :=
          ih hblocks ((List.prefix_append_right_inj _).mp hfront)
        exact ⟨block :: seen, tail, (List.prefix_cons_inj block).mpr hseen, htail,
          by rw [← List.append_assoc]; rfl⟩

end

/-- However far a stream of blocks has come and in which pieces, the blocks that are found are the
first ones. -/
theorem readAll_prefix {blocks : List (List α)}
    (h : ∀ block ∈ blocks, Solid sep (block ++ [sep])) {pieces : List (List α)}
    (hpieces : pieces.flatten <+: write sep blocks) : (readAll sep pieces).1 <+: blocks := by
  obtain ⟨seen, tail, hseen, htail, hfront⟩ := prefix_write h hpieces
  rw [readAll_eq, hfront,
    drain_write (fun block hblock => h block (hseen.subset hblock)) htail (Nat.le_refl _)]
  exact hseen

theorem readAll_write {blocks : List (List α)}
    (h : ∀ block ∈ blocks, Solid sep (block ++ [sep])) {pieces : List (List α)}
    (hpieces : pieces.flatten = write sep blocks) : (readAll sep pieces).1 = blocks := by
  have hall := drain_write h (show Solid sep [] from List.IsChain.nil)
    (Nat.le_refl (write sep blocks ++ []).length)
  rw [List.append_nil] at hall
  rw [readAll_eq, hpieces, hall]

end JiuwenCore.EventStream
