import JiuwenCore.Context.Reduction

/-!
# What the window promises about its size and the latest query

The token and message limits of the window, and the survival of the user message
that opens the newest segment.
-/

namespace JiuwenCore.ContextEngine

open Pieces

theorem applyContextLimits_eq (config : ContextConfig) (messages : List Message) :
    applyContextLimits config messages =
      (dropUnpairedToolMessages
        (truncateFront config (selectMessages config (sanitize messages)))).1 := by
  unfold applyContextLimits
  split
  · rename_i h
    have hselected : selectMessages config (sanitize messages) = [] := by rw [h]; rfl
    rw [hselected]
    simp [truncateFront, dropUnpairedToolMessages, dropOrphanToolCalls, stripOrphanCalls,
      dropOrphanResults]
  · rfl

/-! ## Tokens -/

/-- The newest segment, admitted on its own. -/
def NewestFits (config : ContextConfig) (sanitized : List Message) : Prop :=
  ∃ segment older, (buildMessageSegments sanitized).reverse = segment :: older ∧
    Fits config sanitized 0 segment

theorem selection_totalTokens (config : ContextConfig) (sanitized : List Message) :
    (selection config sanitized).totalTokens =
      calculateMessagesTokens ((selection config sanitized).newest sanitized) := by
  have hperm : calculateMessagesTokens ((selection config sanitized).newest sanitized) =
      calculateMessagesTokens
        ((selection config sanitized).admitted.flatMap (·.slice sanitized)) := by
    unfold Selection.newest
    induction (selection config sanitized).admitted with
    | nil => rfl
    | cons segment older ih =>
        simp only [List.reverse_cons, List.flatMap_append, List.flatMap_cons, List.flatMap_nil,
          List.append_nil, calculateMessagesTokens_append]
        omega
  rw [hperm, selection, admitSegments_tokens, Nat.zero_add]

/-- When the newest segment fits, the admitted segments are within the limit. -/
theorem NewestFits.within {config : ContextConfig} {sanitized : List Message}
    (h : NewestFits config sanitized) :
    ((selection config sanitized).totalTokens : Int) ≤ config.maxContextTokens.toInt := by
  rcases h with ⟨segment, older, hsegments, hfits⟩
  unfold selection
  rw [hsegments]
  rcases admitSegments_cons config sanitized 0 segment older with ⟨_, more, hmore⟩ | ⟨hnot, _⟩
  · rcases admitSegments_within config sanitized 0 (segment :: older) with hnil | hle
    · rw [hnil] at hmore
      cases hmore
    · exact hle
  · exact absurd hfits hnot

theorem window_tokens_le_selected (config : ContextConfig) (messages : List Message) :
    calculateMessagesTokens (applyContextLimits config messages) ≤
      calculateMessagesTokens (selectMessages config (sanitize messages)) := by
  rw [applyContextLimits_eq]
  exact Nat.le_trans (dropUnpaired_tokens _)
    (calculateMessagesTokens_sublist (truncateFront_sublist config _))

/-- Tokens of the compressed boundary: its budget, unless the opening user
message alone is larger. -/
theorem compressBoundary_tokens (config : ContextConfig) (sanitized : List Message) :
    (calculateMessagesTokens
        (compressBoundary config sanitized (selection config sanitized)) : Int) ≤
      max (max (config.maxContextTokens.toInt - (selection config sanitized).totalTokens) 1)
        (calculateMessagesTokens
          (openingUser ((selection config sanitized).boundaryMessages sanitized)) + 1) +
        estimateTokens Role.assistant := by
  unfold compressBoundary
  cases hb : (selection config sanitized).boundary with
  | none =>
      simp only [calculateMessagesTokens_nil]
      omega
  | some segment =>
      have hrange := buildMessageSegments_range sanitized segment (selection_boundary_mem hb)
      have hmessages : (selection config sanitized).boundaryMessages sanitized =
          segment.slice sanitized := by
        simp [Selection.boundaryMessages, hb]
      rw [hmessages]
      exact compressSegment_tokens config sanitized segment (by omega) hrange

/-- The window of a history whose newest segment fits is within the token limit
when every segment was admitted whole. Otherwise it may exceed the limit by what
the compression never gives up: the user message that opens the boundary segment
and the marker that stands for the rest of it. -/
theorem window_tokens (config : ContextConfig) (messages : List Message)
    (hfits : NewestFits config (sanitize messages)) :
    ((selection config (sanitize messages)).boundary = none →
      (calculateMessagesTokens (applyContextLimits config messages) : Int) ≤
        config.maxContextTokens.toInt) ∧
    (calculateMessagesTokens (applyContextLimits config messages) : Int) ≤
      max config.maxContextTokens.toInt
        ((selection config (sanitize messages)).totalTokens +
          calculateMessagesTokens (openingUser
            ((selection config (sanitize messages)).boundaryMessages (sanitize messages))) + 1) +
        estimateTokens Role.assistant := by
  have hwithin := hfits.within
  have hle := window_tokens_le_selected config messages
  rw [selectMessages_eq, calculateMessagesTokens_append, ← selection_totalTokens] at hle
  constructor
  · intro hnone
    have hempty : compressBoundary config (sanitize messages)
        (selection config (sanitize messages)) = [] := by
      simp [compressBoundary, hnone]
    rw [hempty, calculateMessagesTokens_nil] at hle
    omega
  · have hboundary := compressBoundary_tokens config (sanitize messages)
    omega

/-- A long question whose answer was only ever a tool call, then a short one. -/
def overBudgetHistory : List Message :=
  [{ role := Role.user, content := List.replicate 40 65 },
    { role := Role.assistant, toolCalls := [⟨lit "c1", lit "search", lit "{}"⟩] },
    { role := Role.user, content := lit "hi" }]

def overBudgetConfig : ContextConfig := { maxContextTokens := 5, maxMessages := 10 }

theorem overBudget_newest_fits : NewestFits overBudgetConfig (sanitize overBudgetHistory) :=
  ⟨⟨2, 3, true, 1⟩, [⟨0, 2, true, 14⟩], by decide +kernel, by
    unfold Fits
    decide +kernel⟩

/-- A user message that cannot be summarised with its segment is kept whole, over
any limit. -/
theorem window_tokens_over_limit :
    ¬ ∀ (config : ContextConfig) (messages : List Message), 1 ≤ config.maxMessages.toInt →
      1 ≤ config.maxContextTokens.toInt → NewestFits config (sanitize messages) →
      (calculateMessagesTokens (applyContextLimits config messages) : Int) ≤
        config.maxContextTokens.toInt := by
  intro h
  have hle := h overBudgetConfig overBudgetHistory (by decide) (by decide) overBudget_newest_fits
  have htokens :
      calculateMessagesTokens (applyContextLimits overBudgetConfig overBudgetHistory) = 12 := by
    decide +kernel
  rw [htokens] at hle
  revert hle
  decide

theorem window_tokens_overBudget :
    (calculateMessagesTokens (applyContextLimits overBudgetConfig overBudgetHistory) : Int) ≤
      max overBudgetConfig.maxContextTokens.toInt
        ((selection overBudgetConfig (sanitize overBudgetHistory)).totalTokens +
          calculateMessagesTokens (openingUser
            ((selection overBudgetConfig (sanitize overBudgetHistory)).boundaryMessages
              (sanitize overBudgetHistory))) + 1) +
        estimateTokens Role.assistant :=
  (window_tokens overBudgetConfig overBudgetHistory overBudget_newest_fits).2

/-! ## The latest query -/

/-- The last user message of a history. -/
def latestQuery (messages : List Message) : Option Message :=
  (messages.filter fun m => userMark m).getLast?

/-- The newest segment starts with the latest query. -/
theorem newest_segment {sanitized : List Message} (huser : ∃ m ∈ sanitized, m.isUser) :
    ∃ segment older query tail, (buildMessageSegments sanitized).reverse = segment :: older ∧
      segment.slice sanitized = query :: tail ∧ query.isUser ∧
      latestQuery sanitized = some query := by
  have hmark : ∃ m ∈ sanitized, userMark m = true := by simpa using huser
  obtain ⟨before, query, tail, hpieces, hquery, hlast⟩ := pieces_last userMark hmark
  rw [← buildMessageSegments_slices] at hpieces
  cases hsegments : (buildMessageSegments sanitized).reverse with
  | nil =>
      rw [List.reverse_eq_nil_iff] at hsegments
      simp [hsegments] at hpieces
  | cons segment older =>
      have hrev : buildMessageSegments sanitized = older.reverse ++ [segment] := by
        rw [← List.reverse_reverse (buildMessageSegments sanitized), hsegments, List.reverse_cons]
      rw [hrev, List.map_append, List.map_singleton] at hpieces
      obtain ⟨_, hslice⟩ := List.append_inj' hpieces rfl
      rw [List.singleton_inj] at hslice
      exact ⟨segment, older, query, tail, rfl, hslice, (userMark_iff query).mp hquery, hlast⟩

theorem truncateFront_length (config : ContextConfig) (hmax : 1 ≤ config.maxMessages.toInt)
    (result : List Message) :
    ((truncateFront config result).length : Int) ≤ config.maxMessages.toInt := by
  rw [truncateFront_eq_drop config hmax, List.length_drop]
  omega

/-- The truncation keeps a suffix that is not longer than the limit. -/
theorem mem_truncateFront {config : ContextConfig} (hmax : 1 ≤ config.maxMessages.toInt)
    {older newest : List Message} (hlen : (newest.length : Int) ≤ config.maxMessages.toInt)
    {m : Message} (hm : m ∈ newest) : m ∈ truncateFront config (older ++ newest) := by
  rw [truncateFront_eq_drop config hmax, List.length_append,
    List.drop_append_of_le_length (by omega)]
  exact List.mem_append_right _ hm

/-- The query opens the compressed segment, which is never longer than the limit. -/
theorem compressSegment_query {config : ContextConfig} (hmax : 2 ≤ config.maxMessages.toInt)
    {messages : List Message} {segment : MessageSegment} {tokenBudget : Int}
    (hb : 0 < tokenBudget) (hrange : segment.start < segment.stop ∧ segment.stop ≤ messages.length)
    {query : Message} {tail : List Message} (hslice : segment.slice messages = query :: tail)
    (hquery : query.isUser) :
    query ∈ compressSegment config messages segment tokenBudget ∧
      ((compressSegment config messages segment tokenBudget).length : Int) ≤
        config.maxMessages.toInt := by
  have hopening : openingUser (segment.slice messages) = [query] := by
    simp [hslice, openingUser, hquery]
  rcases compressSegment_cases config messages segment hb hrange with
    ⟨heq, _, hlen⟩ | ⟨heq, _⟩ | ⟨content, _, heq, _⟩
  · rw [heq]
    exact ⟨by simp [hslice], hlen⟩
  · rw [heq, hopening]
    refine ⟨List.mem_singleton_self query, ?_⟩
    simp only [List.length_singleton]
    omega
  · rw [heq, hopening]
    refine ⟨by simp, ?_⟩
    simp only [List.singleton_append, List.length_cons, List.length_nil]
    omega

/-- The latest query is among the last `maxMessages` selected messages. -/
theorem selectMessages_query (config : ContextConfig) (hmax : 2 ≤ config.maxMessages.toInt)
    {sanitized : List Message} (huser : ∃ m ∈ sanitized, m.isUser) :
    ∃ older newest query, selectMessages config sanitized = older ++ newest ∧
      (newest.length : Int) ≤ config.maxMessages.toInt ∧ query ∈ newest ∧ query.isUser ∧
      latestQuery sanitized = some query := by
  obtain ⟨segment, older, query, tail, hsegments, hslice, hquery, hlatest⟩ :=
    newest_segment huser
  have hmem : segment ∈ buildMessageSegments sanitized := by
    rw [← List.mem_reverse, hsegments]
    exact List.mem_cons_self
  rcases admitSegments_cons config sanitized 0 segment older with ⟨hfits, more, hmore⟩ | ⟨_, heq⟩
  · refine ⟨compressBoundary config sanitized (selection config sanitized) ++
      more.reverse.flatMap (·.slice sanitized), segment.slice sanitized, query, ?_, hfits.1, ?_,
      hquery, hlatest⟩
    · have hadmitted : (selection config sanitized).admitted = segment :: more := by
        rw [selection, hsegments]
        exact hmore
      rw [selectMessages_eq, Selection.newest, hadmitted]
      simp
    · simp [hslice]
  · have hselection : selection config sanitized = ⟨[], 0, some segment⟩ := by
      rw [selection, hsegments]
      exact heq
    have hbudget : 0 < max (config.maxContextTokens.toInt - (0 : Nat)) 1 := by omega
    obtain ⟨hin, hlen⟩ := compressSegment_query hmax hbudget
      (buildMessageSegments_range sanitized segment hmem) hslice hquery
    refine ⟨[], _, query, ?_, hlen, hin, hquery, hlatest⟩
    rw [selectMessages_eq, hselection]
    simp [compressBoundary, Selection.newest]

/-- The window has at most `maxMessages` messages, and the latest user query is
one of them, as it stands in the merged history. -/
theorem window_keeps_query (config : ContextConfig) (messages : List Message)
    (hmax : 2 ≤ config.maxMessages.toInt) (huser : ∃ m ∈ messages, m.isUser) :
    ((applyContextLimits config messages).length : Int) ≤ config.maxMessages.toInt ∧
      ∃ query, latestQuery (sanitize messages) = some query ∧
        query ∈ applyContextLimits config messages := by
  rw [applyContextLimits_eq]
  constructor
  · have hlen := truncateFront_length config (by omega) (selectMessages config (sanitize messages))
    have hdrop := dropUnpaired_length
      (truncateFront config (selectMessages config (sanitize messages)))
    omega
  · obtain ⟨older, newest, query, hselect, hlen, hin, hquery, hlatest⟩ :=
      selectMessages_query config hmax (sanitize_user huser)
    refine ⟨query, hlatest, dropUnpaired_user ?_ hquery⟩
    rw [hselect]
    exact mem_truncateFront (by omega) hlen hin

theorem window_keeps_query_overBudget :
    ((applyContextLimits overBudgetConfig overBudgetHistory).length : Int) ≤
        overBudgetConfig.maxMessages.toInt ∧
      ∃ query, latestQuery (sanitize overBudgetHistory) = some query ∧
        query ∈ applyContextLimits overBudgetConfig overBudgetHistory :=
  window_keeps_query overBudgetConfig overBudgetHistory (by decide)
    ⟨{ role := Role.user, content := lit "hi" }, by decide, rfl⟩

end JiuwenCore.ContextEngine
