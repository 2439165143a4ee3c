import JiuwenCore.Context.Window
import JiuwenCore.Lib.Pieces

/-!
# What each pass of the window does

One specification for each pass of `ApplyContextLimits`. The index ranges of the
segments are the pieces of the message list cut before every user message; the
walk splits the pieces into those admitted, the boundary and those dropped; the
truncation is a `drop`; the pairing passes only remove messages and calls.
-/

namespace JiuwenCore.ContextEngine

open Pieces

/-! ## Tokens -/

@[simp] theorem calculateMessagesTokens_nil : calculateMessagesTokens [] = 0 := rfl

@[simp] theorem calculateMessagesTokens_cons (m : Message) (l : List Message) :
    calculateMessagesTokens (m :: l) = calculateMessageTokens m + calculateMessagesTokens l := by
  simp [calculateMessagesTokens]

@[simp] theorem calculateMessagesTokens_append (l l' : List Message) :
    calculateMessagesTokens (l ++ l') = calculateMessagesTokens l + calculateMessagesTokens l' := by
  simp [calculateMessagesTokens]

theorem calculateMessagesTokens_sublist {l l' : List Message} (h : l.Sublist l') :
    calculateMessagesTokens l ≤ calculateMessagesTokens l' := by
  induction h with
  | slnil => exact Nat.le_refl _
  | cons m _ ih => simp only [calculateMessagesTokens_cons]; omega
  | cons_cons m _ ih => simp only [calculateMessagesTokens_cons]; omega

@[simp] theorem estimateTokens_nil : estimateTokens [] = 0 := rfl

/-- A single byte is charged nothing, so halving stops before the empty string. -/
theorem estimateTokens_singleton (c : UInt8) : estimateTokens [c] = 0 := by
  simp only [estimateTokens, countChars]
  split_ifs <;> rfl

/-! ## Merging -/

theorem canMerge_iff (prev cur : Message) :
    canMerge prev cur = true ↔ prev.role = cur.role ∧ prev.role ≠ Role.tool ∧
      (prev.role = Role.assistant → prev.toolCalls = [] ∧ cur.toolCalls = []) := by
  unfold canMerge
  by_cases hr : prev.role = cur.role
  · by_cases ht : prev.role = Role.tool
    · simp [hr, hr ▸ ht]
    · by_cases ha : prev.role = Role.assistant
      · have hc : cur.role = Role.assistant := hr ▸ ha
        simp [ha, hc]
      · have hc : cur.role ≠ Role.assistant := hr ▸ ha
        have ht' : cur.role ≠ Role.tool := hr ▸ ht
        simp [hr, hc, ht']
  · simp [hr]

/-- The first message of a merge keeps everything but its content. -/
theorem mergeInto_head (back : Message) (rest : List Message) :
    ∃ content tail, mergeInto back rest = { back with content := content } :: tail := by
  induction rest generalizing back with
  | nil => exact ⟨back.content, [], rfl⟩
  | cons msg rest ih =>
      unfold mergeInto
      split
      · obtain ⟨content, tail, h⟩ := ih
          { back with content := mergeMessageContent back.content msg.content }
        exact ⟨content, tail, h⟩
      · exact ⟨back.content, mergeInto msg rest, rfl⟩

/-- A user message survives the merge, in some user message. -/
theorem mergeInto_user (back : Message) (rest : List Message)
    (h : back.isUser ∨ ∃ m ∈ rest, m.isUser) : ∃ m ∈ mergeInto back rest, m.isUser := by
  induction rest generalizing back with
  | nil =>
      rcases h with h | ⟨m, hm, _⟩
      · exact ⟨back, by simp [mergeInto], h⟩
      · simp at hm
  | cons msg rest ih =>
      unfold mergeInto
      split
      · rename_i hmerge
        refine ih _ ?_
        rcases h with h | ⟨m, hm, hu⟩
        · exact Or.inl h
        · rcases List.mem_cons.mp hm with rfl | hm
          · exact Or.inl (((canMerge_iff _ _).mp hmerge).1.trans hu)
          · exact Or.inr ⟨m, hm, hu⟩
      · rcases h with h | ⟨m, hm, hu⟩
        · exact ⟨back, List.mem_cons_self, h⟩
        · have hrest : msg.isUser ∨ ∃ x ∈ rest, x.isUser := by
            rcases List.mem_cons.mp hm with rfl | hm
            · exact Or.inl hu
            · exact Or.inr ⟨m, hm, hu⟩
          obtain ⟨x, hx, hxu⟩ := ih msg hrest
          exact ⟨x, List.mem_cons_of_mem back hx, hxu⟩

theorem sanitize_user {messages : List Message} (h : ∃ m ∈ messages, m.isUser) :
    ∃ m ∈ sanitize messages, m.isUser := by
  cases messages with
  | nil => simp at h
  | cons msg rest => exact mergeInto_user msg rest (by simpa using h)

/-- The merge pass leaves no two adjacent messages that can be merged. -/
theorem mergeInto_isChain (back : Message) (rest : List Message) :
    (mergeInto back rest).IsChain fun prev cur => canMerge prev cur = false := by
  induction rest generalizing back with
  | nil => simp [mergeInto]
  | cons msg rest ih =>
      unfold mergeInto
      split
      · exact ih _
      · rename_i hmerge
        obtain ⟨content, tail, hhead⟩ := mergeInto_head msg rest
        have hrest := ih msg
        rw [hhead] at hrest ⊢
        refine List.isChain_cons_cons.mpr ⟨?_, hrest⟩
        have : canMerge back { msg with content := content } = canMerge back msg := rfl
        rw [this]
        simpa using hmerge

theorem sanitize_isChain (messages : List Message) :
    (sanitize messages).IsChain fun prev cur => canMerge prev cur = false := by
  cases messages with
  | nil => simp [sanitize]
  | cons msg rest => exact mergeInto_isChain msg rest

/-! ## Segments -/

/-- The mark that `BuildMessageSegments` cuts before. -/
def userMark (m : Message) : Bool := decide m.isUser

@[simp] theorem userMark_iff (m : Message) : userMark m = true ↔ m.isUser := by
  simp [userMark]

theorem slice_succ {messages rest : List Message} {msg : Message} {start i : Nat}
    (hi : messages.drop i = msg :: rest) (hle : start ≤ i) :
    slice messages start (i + 1) = slice messages start i ++ [msg] := by
  have hlt : i < messages.length := by
    by_contra h
    rw [List.drop_eq_nil_of_le (by omega)] at hi
    cases hi
  have hget : (messages.drop start)[i - start]? = some msg := by
    rw [List.getElem?_drop, show start + (i - start) = i by omega]
    have := congrArg (·[0]?) hi
    simpa using this
  unfold slice
  rw [show i + 1 - start = (i - start) + 1 by omega, List.take_add_one, hget]
  rfl

theorem drop_cons {messages rest : List Message} {msg : Message} {i : Nat}
    (h : messages.drop i = msg :: rest) : i < messages.length ∧ messages.drop (i + 1) = rest := by
  have hlength := congrArg List.length h
  simp only [List.length_drop, List.length_cons] at hlength
  refine ⟨by omega, ?_⟩
  rw [← List.drop_drop, h]
  rfl

/-- The index ranges of the segments are the pieces cut before user messages. -/
theorem segmentsFrom_slices (messages : List Message) (start i : Nat) (rest : List Message)
    (hrest : messages.drop i = rest) (hle : start ≤ i) (hi : i ≤ messages.length) :
    (segmentsFrom messages start i rest).map (·.slice messages) =
      piecesFrom userMark (slice messages start i) rest := by
  induction rest generalizing start i with
  | nil =>
      have hlen : i = messages.length := by
        have := congrArg List.length hrest
        simp only [List.length_drop, List.length_nil] at this
        omega
      simp [segmentsFrom, piecesFrom, closeSegment, MessageSegment.slice, hlen]
  | cons msg rest ih =>
      obtain ⟨hlt, hdrop⟩ := drop_cons hrest
      by_cases hu : msg.isUser
      · have hone : slice messages i (i + 1) = [msg] := by
          rw [slice_succ hrest (Nat.le_refl i)]
          simp [slice]
        rw [segmentsFrom, if_pos hu, piecesFrom, if_pos ((userMark_iff msg).mpr hu), List.map_cons,
          ih i (i + 1) hdrop (Nat.le_succ i) hlt, hone]
        rfl
      · have hmark : userMark msg = false := by simpa [userMark] using hu
        rw [segmentsFrom, if_neg hu, piecesFrom, hmark, if_neg Bool.false_ne_true,
          ih start (i + 1) hdrop (by omega) hlt, slice_succ hrest hle]

theorem buildMessageSegments_slices (messages : List Message) :
    (buildMessageSegments messages).map (·.slice messages) = pieces userMark messages := by
  cases messages with
  | nil => rfl
  | cons first rest =>
      have h := segmentsFrom_slices (first :: rest) 0 1 rest rfl (by omega) (by simp)
      simpa [buildMessageSegments, pieces, slice] using h

theorem segmentsFrom_range (messages : List Message) (start i : Nat) (rest : List Message)
    (hrest : messages.drop i = rest) (hlt : start < i) (hi : i ≤ messages.length) :
    ∀ segment ∈ segmentsFrom messages start i rest,
      segment.start < segment.stop ∧ segment.stop ≤ messages.length := by
  induction rest generalizing start i with
  | nil =>
      intro segment hs
      rw [segmentsFrom, List.mem_singleton] at hs
      subst hs
      exact ⟨Nat.lt_of_lt_of_le hlt hi, Nat.le_refl _⟩
  | cons msg rest ih =>
      obtain ⟨hlen, hdrop⟩ := drop_cons hrest
      unfold segmentsFrom
      split
      · intro segment hs
        rcases List.mem_cons.mp hs with rfl | hs
        · exact ⟨hlt, hi⟩
        · exact ih i (i + 1) hdrop (Nat.lt_succ_self i) hlen segment hs
      · exact ih start (i + 1) hdrop (by omega) hlen

/-- Every segment is a non-empty range inside the message vector. -/
theorem buildMessageSegments_range (messages : List Message) :
    ∀ segment ∈ buildMessageSegments messages,
      segment.start < segment.stop ∧ segment.stop ≤ messages.length := by
  cases messages with
  | nil => simp [buildMessageSegments]
  | cons first rest =>
      exact segmentsFrom_range (first :: rest) 0 1 rest rfl (by omega) (by simp)

/-! ## The walk over the segments -/

/-- What the walk decides about one segment. -/
def Fits (config : ContextConfig) (sanitized : List Message) (totalTokens : Nat)
    (segment : MessageSegment) : Prop :=
  ((segment.slice sanitized).length : Int) ≤ config.maxMessages.toInt ∧
    (totalTokens + calculateMessagesTokens (segment.slice sanitized) : Int) ≤
      config.maxContextTokens.toInt

theorem admitSegments_split (config : ContextConfig) (sanitized : List Message) (total : Nat)
    (segments : List MessageSegment) :
    ∃ older, segments = (admitSegments config sanitized total segments).admitted ++
      (admitSegments config sanitized total segments).boundary.toList ++ older ∧
      ((admitSegments config sanitized total segments).boundary = none → older = []) := by
  induction segments generalizing total with
  | nil => exact ⟨[], by simp [admitSegments], fun _ => rfl⟩
  | cons segment older ih =>
      unfold admitSegments
      dsimp only
      split
      · obtain ⟨rest, heq, hnone⟩ :=
          ih (total + calculateMessagesTokens (segment.slice sanitized))
        exact ⟨rest, by simpa using heq, hnone⟩
      · exact ⟨older, by simp, by simp⟩

theorem admitSegments_tokens (config : ContextConfig) (sanitized : List Message) (total : Nat)
    (segments : List MessageSegment) :
    (admitSegments config sanitized total segments).totalTokens =
      total + calculateMessagesTokens
        ((admitSegments config sanitized total segments).admitted.flatMap (·.slice sanitized)) := by
  induction segments generalizing total with
  | nil => simp [admitSegments]
  | cons segment older ih =>
      unfold admitSegments
      dsimp only
      split
      · rw [ih]
        simp only [List.flatMap_cons, calculateMessagesTokens_append]
        omega
      · simp

/-- As soon as one segment is admitted the admitted tokens are within the limit. -/
theorem admitSegments_within (config : ContextConfig) (sanitized : List Message) (total : Nat)
    (segments : List MessageSegment) :
    (admitSegments config sanitized total segments).admitted = [] ∨
      ((admitSegments config sanitized total segments).totalTokens : Int) ≤
        config.maxContextTokens.toInt := by
  induction segments generalizing total with
  | nil => exact Or.inl rfl
  | cons segment older ih =>
      unfold admitSegments
      dsimp only
      split
      · rename_i hfits
        right
        rcases ih (total + calculateMessagesTokens (segment.slice sanitized)) with h | h
        · rw [admitSegments_tokens, h]
          simp only [List.flatMap_nil, calculateMessagesTokens_nil, Nat.add_zero]
          exact_mod_cast hfits.2
        · exact h
      · exact Or.inl rfl

/-- The newest segment is admitted exactly when it fits on its own. -/
theorem admitSegments_cons (config : ContextConfig) (sanitized : List Message) (total : Nat)
    (segment : MessageSegment) (older : List MessageSegment) :
    (Fits config sanitized total segment ∧
      ∃ more, (admitSegments config sanitized total (segment :: older)).admitted =
        segment :: more) ∨
    (¬ Fits config sanitized total segment ∧
      admitSegments config sanitized total (segment :: older) = ⟨[], total, some segment⟩) := by
  unfold admitSegments
  dsimp only
  split
  · rename_i hfits
    exact Or.inl ⟨hfits, _, rfl⟩
  · rename_i hfits
    exact Or.inr ⟨hfits, rfl⟩

/-- The walk of `ApplyContextLimits` from the newest segment. -/
def selection (config : ContextConfig) (sanitized : List Message) : Selection :=
  admitSegments config sanitized 0 (buildMessageSegments sanitized).reverse

/-- The messages of the admitted segments, oldest first. -/
def Selection.newest (s : Selection) (sanitized : List Message) : List Message :=
  s.admitted.reverse.flatMap fun segment => segment.slice sanitized

/-- The messages of the boundary segment, before its compression. -/
def Selection.boundaryMessages (s : Selection) (sanitized : List Message) : List Message :=
  s.boundary.toList.flatMap fun segment => segment.slice sanitized

theorem selectMessages_eq (config : ContextConfig) (sanitized : List Message) :
    selectMessages config sanitized =
      compressBoundary config sanitized (selection config sanitized) ++
        (selection config sanitized).newest sanitized := rfl

theorem selection_boundary_mem {config : ContextConfig} {sanitized : List Message}
    {segment : MessageSegment} (h : (selection config sanitized).boundary = some segment) :
    segment ∈ buildMessageSegments sanitized := by
  obtain ⟨older, heq, _⟩ :=
    admitSegments_split config sanitized 0 (buildMessageSegments sanitized).reverse
  have hmem : segment ∈ (buildMessageSegments sanitized).reverse := by
    rw [heq]
    change segment ∈ _ ++ (selection config sanitized).boundary.toList ++ _
    simp [h]
  exact List.mem_reverse.mp hmem

/-- The pieces of the history, split by the walk into dropped, boundary and admitted. -/
theorem selection_pieces (config : ContextConfig) (sanitized : List Message) :
    ∃ dropped, pieces userMark sanitized =
      dropped ++ (selection config sanitized).boundary.toList.map (·.slice sanitized) ++
        (selection config sanitized).admitted.reverse.map (·.slice sanitized) ∧
      ((selection config sanitized).boundary = none → dropped = []) := by
  obtain ⟨older, heq, hnone⟩ :=
    admitSegments_split config sanitized 0 (buildMessageSegments sanitized).reverse
  refine ⟨older.reverse.map (·.slice sanitized), ?_, fun h => by simp [hnone h]⟩
  rw [← buildMessageSegments_slices, ← List.map_append, ← List.map_append]
  have hrev := congrArg List.reverse heq
  rw [List.reverse_reverse, List.reverse_append, List.reverse_append] at hrev
  have hbound : (selection config sanitized).boundary.toList.reverse =
      (selection config sanitized).boundary.toList := by
    cases (selection config sanitized).boundary <;> rfl
  change _ = older.reverse ++ ((selection config sanitized).boundary.toList.reverse ++
    (selection config sanitized).admitted.reverse) at hrev
  rw [hrev, hbound, List.append_assoc]

/-- The history is the dropped messages, the boundary segment and the admitted
segments; both cuts are before a user message. -/
theorem selection_cut (config : ContextConfig) (sanitized : List Message) :
    ∃ dropped, sanitized = dropped ++ (selection config sanitized).boundaryMessages sanitized ++
        (selection config sanitized).newest sanitized ∧
      ((selection config sanitized).boundary = none → dropped = []) ∧
      (dropped = [] ∨
        ∀ m, ((selection config sanitized).boundaryMessages sanitized).head? = some m → m.isUser) ∧
      ((selection config sanitized).boundary = none ∨
        ∀ m, ((selection config sanitized).newest sanitized).head? = some m → m.isUser) := by
  obtain ⟨dropped, hpieces, hnone⟩ := selection_pieces config sanitized
  have hflat : sanitized = dropped.flatten ++
      (selection config sanitized).boundaryMessages sanitized ++
        (selection config sanitized).newest sanitized := by
    have := congrArg List.flatten hpieces
    rw [pieces_flatten] at this
    simpa [Selection.boundaryMessages, Selection.newest, List.flatMap_def] using this
  refine ⟨dropped.flatten, hflat, fun h => by simp [hnone h], ?_, ?_⟩
  · by_cases hd : dropped = []
    · exact Or.inl (by simp [hd])
    · right
      intro m hm
      cases hb : (selection config sanitized).boundary with
      | none => simp [Selection.boundaryMessages, hb] at hm
      | some segment =>
          have hp := hpieces
          rw [hb] at hp
          have hmem : segment.slice sanitized ∈ (pieces userMark sanitized).tail := by
            obtain ⟨first, others, rfl⟩ := List.exists_cons_of_ne_nil hd
            simp [hp]
          obtain ⟨a, tail, ha, hmark⟩ := pieces_tail_marked userMark sanitized _ hmem
          simp only [Selection.boundaryMessages, hb, Option.toList_some, List.flatMap_cons,
            List.flatMap_nil, List.append_nil, ha, List.head?_cons, Option.some.injEq] at hm
          exact hm ▸ (userMark_iff a).mp hmark
  · cases hb : (selection config sanitized).boundary with
    | none => exact Or.inl rfl
    | some segment =>
        right
        intro m hm
        have hp := hpieces
        rw [hb] at hp
        have hnew : (selection config sanitized).newest sanitized =
            ((selection config sanitized).admitted.reverse.map (·.slice sanitized)).flatten := by
          simp [Selection.newest, List.flatMap_def]
        rcases pieces_suffix_marked userMark hp (by simp) with h | ⟨a, tail, ha, hmark⟩
        · rw [hnew, h] at hm
          simp at hm
        · rw [hnew, ha, List.head?_cons, Option.some.injEq] at hm
          exact hm ▸ (userMark_iff a).mp hmark

end JiuwenCore.ContextEngine
