import Mathlib.Algebra.Order.BigOperators.Group.List
import JiuwenCore.Context.Passes

/-!
# Compression, truncation and the pairing passes

What the compression of the boundary segment returns and how many tokens it
costs, what the truncation keeps, and what the two pairing passes may remove.
-/

namespace JiuwenCore.ContextEngine

/-! ## The halving loop -/

/-- The fuel suffices: the loop ends with a content that fits or is empty. -/
theorem halveToFit_fits (budget : Int) (fuel : Nat) (content : Str) (h : content.length ≤ fuel) :
    (estimateTokens (halveToFit budget fuel content) : Int) ≤ budget ∨
      halveToFit budget fuel content = [] := by
  induction fuel generalizing content with
  | zero => exact Or.inr (List.eq_nil_of_length_eq_zero (Nat.le_zero.mp h))
  | succ fuel ih =>
      unfold halveToFit
      split
      · refine ih _ ?_
        rw [List.length_take]
        omega
      · rename_i hstop
        by_cases hc : content = []
        · exact Or.inr hc
        · exact Or.inl (by
            by_contra hgt
            exact hstop ⟨by omega, hc⟩)

/-- With a positive budget the loop stops before the empty string: one byte is
charged nothing. -/
theorem halveToFit_ne_nil {budget : Int} (hb : 1 ≤ budget) (fuel : Nat) {content : Str}
    (hc : content ≠ []) : halveToFit budget fuel content ≠ [] := by
  induction fuel generalizing content with
  | zero => exact hc
  | succ fuel ih =>
      unfold halveToFit
      split
      · rename_i hlarge
        refine ih ?_
        match content, hc, hlarge with
        | [c], _, hlarge =>
            rw [estimateTokens_singleton] at hlarge
            omega
        | c :: d :: rest, _, _ =>
            intro h
            have hlen := congrArg List.length h
            simp only [List.length_take, List.length_cons, List.length_nil] at hlen
            omega
      · exact hc

/-! ## Compressing a segment -/

/-- The synthetic message that stands for a compressed segment. -/
def summaryMessage (content : Str) : Message := { role := Role.assistant, content := content }

theorem summaryMessage_tokens (content : Str) :
    calculateMessageTokens (summaryMessage content) =
      estimateTokens Role.assistant + estimateTokens content := by
  simp [calculateMessageTokens, summaryMessage]

theorem openingUser_cases (l : List Message) :
    openingUser l = [] ∨ ∃ first rest, l = first :: rest ∧ first.isUser ∧
      openingUser l = [first] := by
  cases l with
  | nil => exact Or.inl rfl
  | cons first rest =>
      by_cases h : first.isUser
      · exact Or.inr ⟨first, rest, rfl, h, by simp [openingUser, h]⟩
      · exact Or.inl (by simp [openingUser, h])

theorem openingUser_isUser (l : List Message) : ∀ m ∈ openingUser l, m.isUser := by
  rcases openingUser_cases l with h | ⟨first, _, _, hu, h⟩
  · simp [h]
  · intro m hm
    rw [h, List.mem_singleton] at hm
    exact hm ▸ hu

/-- The summary's own text fits what the kept messages leave of the budget. -/
theorem truncateSummary_spec (kept : List Message) {content : Str} (hc : content ≠ [])
    (tokenBudget : Int) :
    ∃ content', content' ≠ [] ∧
      truncateSummary kept (summaryMessage content) tokenBudget = summaryMessage content' ∧
      (estimateTokens content' : Int) ≤ max 1 (tokenBudget - calculateMessagesTokens kept) := by
  have hb : 1 ≤ max 1 (tokenBudget - (calculateMessagesTokens kept : Int)) := le_max_left _ _
  have hne := halveToFit_ne_nil hb content.length hc
  refine ⟨halveToFit (max 1 (tokenBudget - calculateMessagesTokens kept)) content.length content,
    hne, ?_, ?_⟩
  · simp [truncateSummary, summaryMessage, hne]
  · rcases halveToFit_fits (max 1 (tokenBudget - calculateMessagesTokens kept)) content.length
      content (Nat.le_refl _) with h | h
    · exact h
    · exact absurd h hne

/-- A message that leaves something for the summary of its segment. -/
def Summarised (m : Message) : Prop :=
  m.isTool ∨ (m.isAssistant ∧ m.toolCalls = [] ∧ m.content ≠ [])

theorem collectSummary_empty (acc : List Str × Str) (l : List Message) :
    l.foldl collectSummary acc = ([], []) ↔ acc = ([], []) ∧ ∀ m ∈ l, ¬ Summarised m := by
  induction l generalizing acc with
  | nil => simp
  | cons m l ih =>
      rw [List.foldl_cons, ih]
      have hstep : collectSummary acc m = ([], []) ↔ acc = ([], []) ∧ ¬ Summarised m := by
        unfold collectSummary Summarised
        by_cases ht : m.role = Role.tool
        · simp [ht]
        · by_cases hp : m.role = Role.assistant ∧ m.toolCalls = [] ∧ m.content ≠ []
          · simp [ht, hp]
          · simp [ht, hp]
      simp only [hstep, List.forall_mem_cons, and_assoc]

theorem summaryContent_ne_nil (toolSummaries : List Str) (last : Str) :
    summaryContent toolSummaries last ≠ [] := by
  have hbase : lit "Context segment compressed due to context window limits." ≠ [] := by decide
  unfold summaryContent
  dsimp only
  split_ifs <;> simp [hbase]

/-- The compression of a non-empty segment under a positive budget: the segment
itself, or its opening user message followed by a summary when anything in it
can be summarised. The text of the summary fits the rest of the budget. -/
theorem compressSegment_cases (config : ContextConfig) (messages : List Message)
    (segment : MessageSegment) {tokenBudget : Int} (hb : 0 < tokenBudget)
    (hrange : segment.start < segment.stop ∧ segment.stop ≤ messages.length) :
    (compressSegment config messages segment tokenBudget = segment.slice messages ∧
      (calculateMessagesTokens (segment.slice messages) : Int) ≤ tokenBudget ∧
      ((segment.slice messages).length : Int) ≤ config.maxMessages.toInt) ∨
    (compressSegment config messages segment tokenBudget = openingUser (segment.slice messages) ∧
      ∀ m ∈ segment.slice messages, ¬ Summarised m) ∨
    (∃ content, content ≠ [] ∧
      compressSegment config messages segment tokenBudget =
        openingUser (segment.slice messages) ++ [summaryMessage content] ∧
      ((calculateMessagesTokens (openingUser (segment.slice messages) ++
          [summaryMessage content]) : Int) ≤ tokenBudget ∨
        (estimateTokens content : Int) ≤
          max 1
            (tokenBudget - calculateMessagesTokens (openingUser (segment.slice messages))))) := by
  unfold compressSegment
  rw [if_neg (by omega)]
  dsimp only
  split
  · rename_i hfits
    exact Or.inl ⟨rfl, hfits⟩
  · right
    split
    · rename_i hsome
      right
      have hne := summaryContent_ne_nil
        ((segment.slice messages).foldl collectSummary ([], [])).1
        ((segment.slice messages).foldl collectSummary ([], [])).2
      split
      · obtain ⟨content, hc, heq, hfit⟩ :=
          truncateSummary_spec (openingUser (segment.slice messages)) hne tokenBudget
        exact ⟨content, hc, by rw [← heq]; rfl, Or.inr hfit⟩
      · rename_i hle
        exact ⟨_, hne, rfl, Or.inl (by simpa [summaryMessage] using hle)⟩
    · rename_i hnone
      left
      refine ⟨rfl, ?_⟩
      have hempty : (segment.slice messages).foldl collectSummary ([], []) = ([], []) := by
        rw [not_or, not_not, not_not] at hnone
        exact Prod.ext hnone.1 hnone.2
      exact ((collectSummary_empty ([], []) _).mp hempty).2

/-- Tokens of a compressed segment: within the budget, except for the opening
user message, which is never cut, and the role of the summary. -/
theorem compressSegment_tokens (config : ContextConfig) (messages : List Message)
    (segment : MessageSegment) {tokenBudget : Int} (hb : 0 < tokenBudget)
    (hrange : segment.start < segment.stop ∧ segment.stop ≤ messages.length) :
    (calculateMessagesTokens (compressSegment config messages segment tokenBudget) : Int) ≤
      max tokenBudget (calculateMessagesTokens (openingUser (segment.slice messages)) + 1) +
        estimateTokens Role.assistant := by
  rcases compressSegment_cases config messages segment hb hrange with
    ⟨heq, hfit, _⟩ | ⟨heq, _⟩ | ⟨content, _, heq, hfit⟩
  · rw [heq]
    omega
  · rw [heq]
    omega
  · rw [heq]
    rcases hfit with hfit | hfit
    · omega
    · rw [calculateMessagesTokens_append, calculateMessagesTokens_cons, calculateMessagesTokens_nil,
        summaryMessage_tokens]
      push_cast
      omega

/-- A measure of messages that adds up grows by no more than the compression of a segment adds. -/
theorem selectMessages_measure {config : ContextConfig} {sanitized : List Message}
    {measure : List Message → Nat} {allowance : Nat} (hnil : measure [] = 0)
    (happend : ∀ l l', measure (l ++ l') = measure l + measure l')
    (hcompressed : ∀ segment tokenBudget,
      measure (compressSegment config sanitized segment tokenBudget) ≤
        measure (segment.slice sanitized) + allowance) :
    measure (selectMessages config sanitized) ≤ measure sanitized + allowance := by
  obtain ⟨dropped, hpieces, -⟩ := selection_pieces config sanitized
  have hcut := congrArg (fun pieces => measure pieces.flatten) hpieces
  simp only [Pieces.pieces_flatten, List.flatten_append, happend] at hcut
  rw [selectMessages_eq, happend, Selection.newest, List.flatMap_def]
  unfold compressBoundary
  cases hboundary : (selection config sanitized).boundary with
  | none =>
      rw [hnil]
      omega
  | some segment =>
      have hsegment := hcompressed segment
        (max (config.maxContextTokens.toInt - (selection config sanitized).totalTokens) 1)
      rw [hboundary] at hcut
      simp only [Option.toList_some, List.map_cons, List.map_nil, List.flatten_cons,
        List.flatten_nil, List.append_nil] at hcut
      dsimp only
      omega

/-! ## Truncation -/

theorem toSizeT_of_nonneg {n : Int32} (h : 0 ≤ n.toInt) : toSizeT n = n.toInt.toNat := by
  have hlt : n.toInt < 2 ^ 31 := Int32.toInt_lt n
  unfold toSizeT
  rw [Int.emod_eq_of_lt h (by omega)]

/-- With a positive message limit the truncation keeps the newest `maxMessages`. -/
theorem truncateFront_eq_drop (config : ContextConfig) (hmax : 1 ≤ config.maxMessages.toInt)
    (result : List Message) :
    truncateFront config result =
      result.drop (result.length - config.maxMessages.toInt.toNat) := by
  unfold truncateFront
  split
  · have htarget : max (toSizeT config.maxMessages) 1 = config.maxMessages.toInt.toNat := by
      rw [toSizeT_of_nonneg (by omega)]
      omega
    unfold truncationExcess
    dsimp only
    rw [htarget, if_pos (by omega)]
  · rw [show result.length - config.maxMessages.toInt.toNat = 0 by omega, List.drop_zero]

theorem truncateFront_sublist (config : ContextConfig) (result : List Message) :
    (truncateFront config result).Sublist result := by
  unfold truncateFront
  split
  · exact List.drop_sublist _ _
  · exact List.Sublist.refl _

/-! ## The pairing passes -/

theorem stripOrphanCalls_cons (ids : List Str) (msg : Message) (rest : List Message) :
    (stripOrphanCalls ids (msg :: rest)).1 =
      if msg.opensCalls then
        if (msg.toolCalls.filter fun tc => tc.id ≠ [] ∧ tc.id ∈ ids) = [] ∧ msg.content = [] then
          (stripOrphanCalls ids rest).1
        else
          { msg with toolCalls := msg.toolCalls.filter fun tc => tc.id ≠ [] ∧ tc.id ∈ ids } ::
            (stripOrphanCalls ids rest).1
      else msg :: (stripOrphanCalls ids rest).1 := by
  by_cases h : msg.opensCalls
  · rw [if_pos h, stripOrphanCalls]
    dsimp only
    rw [if_pos (show msg.isAssistant ∧ msg.toolCalls ≠ [] from h)]
    split <;> rfl
  · rw [if_neg h, stripOrphanCalls]
    dsimp only
    rw [if_neg (show ¬ (msg.isAssistant ∧ msg.toolCalls ≠ []) from h)]

theorem dropOrphanResults_cons (ids : List Str) (msg : Message) (rest : List Message) :
    (dropOrphanResults ids (msg :: rest)).1 =
      if msg.isTool ∧ msg.toolCallId ∉ ids then (dropOrphanResults ids rest).1
      else msg :: (dropOrphanResults ids rest).1 := by
  simp only [dropOrphanResults]
  split_ifs <;> rfl

/-- Messages that open no calls pass the first pass as they are. -/
theorem stripOrphanCalls_append_of_not_opens (ids : List Str) {l : List Message}
    (h : ∀ m ∈ l, ¬ m.opensCalls) (rest : List Message) :
    (stripOrphanCalls ids (l ++ rest)).1 = l ++ (stripOrphanCalls ids rest).1 := by
  induction l with
  | nil => rfl
  | cons m l ih =>
      rw [List.cons_append, stripOrphanCalls_cons, if_neg (h m List.mem_cons_self),
        ih fun x hx => h x (List.mem_cons_of_mem m hx), List.cons_append]

theorem dropOrphanResults_sublist (ids : List Str) (msgs : List Message) :
    (dropOrphanResults ids msgs).1.Sublist msgs := by
  induction msgs with
  | nil => exact List.Sublist.refl _
  | cons m rest ih =>
      rw [dropOrphanResults_cons]
      split
      · exact List.Sublist.cons m ih
      · exact List.Sublist.cons_cons m ih

theorem mem_dropOrphanResults {ids : List Str} {msgs : List Message} {m : Message}
    (hm : m ∈ msgs) (hkeep : ¬ (m.isTool ∧ m.toolCallId ∉ ids)) :
    m ∈ (dropOrphanResults ids msgs).1 := by
  induction msgs with
  | nil => simp at hm
  | cons x rest ih =>
      rw [dropOrphanResults_cons]
      rcases List.mem_cons.mp hm with rfl | hm
      · rw [if_neg hkeep]
        exact List.mem_cons_self
      · split
        · exact ih hm
        · exact List.mem_cons_of_mem x (ih hm)

theorem mem_stripOrphanCalls {ids : List Str} {msgs : List Message} {m : Message}
    (hm : m ∈ msgs) (hkeep : ¬ m.opensCalls) : m ∈ (stripOrphanCalls ids msgs).1 := by
  induction msgs with
  | nil => simp at hm
  | cons x rest ih =>
      rw [stripOrphanCalls_cons]
      rcases List.mem_cons.mp hm with rfl | hm
      · rw [if_neg hkeep]
        exact List.mem_cons_self
      · split_ifs
        · exact ih hm
        · exact List.mem_cons_of_mem _ (ih hm)
        · exact List.mem_cons_of_mem _ (ih hm)

theorem stripOrphanCalls_length (ids : List Str) (msgs : List Message) :
    (stripOrphanCalls ids msgs).1.length ≤ msgs.length := by
  induction msgs with
  | nil => exact Nat.le_refl _
  | cons m rest ih =>
      rw [stripOrphanCalls_cons]
      split_ifs <;> simp only [List.length_cons] <;> omega

theorem stripOrphanCalls_tokens (ids : List Str) (msgs : List Message) :
    calculateMessagesTokens (stripOrphanCalls ids msgs).1 ≤ calculateMessagesTokens msgs := by
  induction msgs with
  | nil => exact Nat.le_refl _
  | cons m rest ih =>
      have hkept : (m.toolCalls.filter fun tc => decide (tc.id ≠ [] ∧ tc.id ∈ ids)).Sublist
          m.toolCalls := List.filter_sublist
      have hfilter := List.Sublist.sum_le_sum
        (hkept.map fun tc => estimateTokens tc.name + estimateTokens tc.argumentsJson)
        (fun _ _ => Nat.zero_le _)
      rw [stripOrphanCalls_cons]
      split_ifs
      · rw [calculateMessagesTokens_cons]
        omega
      · simp only [calculateMessagesTokens_cons, calculateMessageTokens]
        omega
      · simp only [calculateMessagesTokens_cons]
        omega

/-- The pairing passes neither lengthen the window nor make it more expensive. -/
theorem dropUnpaired_length (msgs : List Message) :
    (dropUnpairedToolMessages msgs).1.length ≤ msgs.length :=
  Nat.le_trans (dropOrphanResults_sublist _ _).length_le (stripOrphanCalls_length _ msgs)

theorem dropUnpaired_tokens (msgs : List Message) :
    calculateMessagesTokens (dropUnpairedToolMessages msgs).1 ≤ calculateMessagesTokens msgs :=
  Nat.le_trans (calculateMessagesTokens_sublist (dropOrphanResults_sublist _ _))
    (stripOrphanCalls_tokens _ msgs)

/-- User messages pass both pairing passes as they are. -/
theorem dropUnpaired_user {msgs : List Message} {m : Message} (hm : m ∈ msgs) (hu : m.isUser) :
    m ∈ (dropUnpairedToolMessages msgs).1 := by
  refine mem_dropOrphanResults (mem_stripOrphanCalls hm ?_) ?_
  · rintro ⟨ha, _⟩
    exact Role.user_ne_assistant (hu.symm.trans ha)
  · rintro ⟨ht, _⟩
    exact Role.user_ne_tool (hu.symm.trans ht)

end JiuwenCore.ContextEngine
