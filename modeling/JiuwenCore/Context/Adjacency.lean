import Mathlib.Data.List.Chain
import JiuwenCore.Context.Pairing

/-!
# Adjacent messages of the window

The merge pass runs first, over the whole history, and is not repeated. Two
messages that it would have joined can meet later in two ways: the pairing passes
strip or remove the assistant message between them, or the compression leaves
nothing but the user message that opens a segment. Without these, no two adjacent
messages of the window can be merged.
-/

namespace JiuwenCore.ContextEngine

open CallGroups

/-- No two adjacent messages are of the kind the merge pass joins. -/
def Unmergeable (messages : List Message) : Prop :=
  messages.IsChain fun prev cur => canMerge prev cur = false

/-- Every call of an opener has an id and is answered by the run behind it. -/
def Answered (m : Message) (answers : List Message) : Prop :=
  ∀ id ∈ m.callIds, id ≠ [] ∧ id ∈ answers.map (·.toolCallId)

theorem canMerge_of_role_ne {prev cur : Message} (h : prev.role ≠ cur.role) :
    canMerge prev cur = false := by
  simp [canMerge, h]

/-- Messages that merge with nothing may stand in front of any sequence. -/
theorem unmergeable_append {front rest : List Message}
    (hfront : ∀ m ∈ front, ∀ x, canMerge m x = false) (hrest : Unmergeable rest) :
    Unmergeable (front ++ rest) := by
  induction front with
  | nil => exact hrest
  | cons m front ih =>
      refine List.isChain_cons.mpr ⟨fun x _ => hfront m List.mem_cons_self x, ?_⟩
      exact ih fun y hy => hfront y (List.mem_cons_of_mem m hy)

/-! ## Selecting segments -/

/-- The boundary segment is not the newest one when anything was admitted. -/
theorem selection_boundary_older {config : ContextConfig} {sanitized : List Message}
    {segment : MessageSegment} (hb : (selection config sanitized).boundary = some segment)
    (hadmitted : (selection config sanitized).admitted ≠ []) :
    segment ∈ (buildMessageSegments sanitized).dropLast := by
  obtain ⟨older, heq, _⟩ :=
    admitSegments_split config sanitized 0 (buildMessageSegments sanitized).reverse
  change _ = (selection config sanitized).admitted ++
    (selection config sanitized).boundary.toList ++ older at heq
  obtain ⟨newest, others, hcons⟩ := List.exists_cons_of_ne_nil hadmitted
  rw [hb, hcons] at heq
  have hrev := congrArg List.reverse heq
  have hsplit : buildMessageSegments sanitized =
      (older.reverse ++ segment :: others.reverse) ++ [newest] := by
    simpa using hrev
  rw [hsplit, List.dropLast_concat]
  simp

/-- Compression leaves nothing that joins with the admitted segments, as long as
every older segment has something for its summary. -/
theorem selectMessages_unmergeable (config : ContextConfig) {sanitized : List Message}
    (hchain : Unmergeable sanitized)
    (hsummarised : ∀ segment ∈ (buildMessageSegments sanitized).dropLast,
      ∃ m ∈ segment.slice sanitized, Summarised m) :
    Unmergeable (selectMessages config sanitized) := by
  obtain ⟨dropped, hsanitized, hnone, _, hcut⟩ := selection_cut config sanitized
  have hkept : Unmergeable ((selection config sanitized).boundaryMessages sanitized ++
      (selection config sanitized).newest sanitized) := by
    have hwhole := hchain
    rw [hsanitized, List.append_assoc] at hwhole
    exact List.IsChain.right_of_append hwhole
  have hnewest : Unmergeable ((selection config sanitized).newest sanitized) :=
    List.IsChain.right_of_append hkept
  rw [selectMessages_eq]
  cases hb : (selection config sanitized).boundary with
  | none => simpa [compressBoundary, hb] using hnewest
  | some segment =>
      have hboundary : (selection config sanitized).boundaryMessages sanitized =
          segment.slice sanitized := by
        simp [Selection.boundaryMessages, hb]
      have hrange := buildMessageSegments_range sanitized segment (selection_boundary_mem hb)
      have hbudget : 0 <
          max (config.maxContextTokens.toInt - (selection config sanitized).totalTokens) 1 := by
        omega
      have huser : ∀ x ∈ ((selection config sanitized).newest sanitized).head?, x.isUser := by
        rcases hcut with hnot | hcut
        · simp [hb] at hnot
        · exact hcut
      have hcompress : compressBoundary config sanitized (selection config sanitized) =
          compressSegment config sanitized segment
            (max (config.maxContextTokens.toInt - (selection config sanitized).totalTokens) 1) := by
        simp [compressBoundary, hb]
      rw [hboundary] at hkept
      rw [hcompress]
      rcases compressSegment_cases config sanitized segment hbudget hrange with
        ⟨heq, _⟩ | ⟨heq, hnothing⟩ | ⟨content, _, heq, _⟩
      · rw [heq]
        exact hkept
      · rw [heq]
        by_cases hadmitted : (selection config sanitized).admitted = []
        · have hempty : (selection config sanitized).newest sanitized = [] := by
            simp [Selection.newest, hadmitted]
          rw [hempty, List.append_nil]
          rcases openingUser_cases (segment.slice sanitized) with h | ⟨first, _, _, _, h⟩
          · rw [h]
            exact List.isChain_nil
          · rw [h]
            exact List.isChain_singleton first
        · obtain ⟨m, hm, hsome⟩ := hsummarised segment (selection_boundary_older hb hadmitted)
          exact absurd hsome (hnothing m hm)
      · rw [heq, List.append_assoc, List.singleton_append]
        have hsummary : Unmergeable (summaryMessage content ::
            (selection config sanitized).newest sanitized) := by
          refine List.isChain_cons.mpr ⟨fun x hx => canMerge_of_role_ne ?_, hnewest⟩
          rw [huser x hx]
          exact Role.assistant_ne_user
        rcases openingUser_cases (segment.slice sanitized) with h | ⟨first, _, _, hu, h⟩
        · rw [h]
          exact hsummary
        · rw [h]
          refine List.isChain_cons_cons.mpr ⟨canMerge_of_role_ne ?_, hsummary⟩
          rw [hu]
          exact Role.user_ne_assistant

/-! ## The pairing passes -/

/-- Answered calls pass the first pass as they are. -/
theorem stripOrphanCalls_answered {ids : List Str} {l : List Message}
    (h : Grouped messageKinds Answered l)
    (hids : ∀ id ∈ toolMessageIds l, id ≠ [] → id ∈ ids) : (stripOrphanCalls ids l).1 = l := by
  induction h with
  | nil => rfl
  | @plain m rest ho ha _ ih =>
      change ¬ m.opensCalls at ho
      rw [stripOrphanCalls_cons, if_neg ho, ih]
      rwa [toolMessageIds_cons_of_not_tool ha] at hids
  | @group m answers rest ho ha hr _ ih =>
      change m.opensCalls at ho
      rw [toolMessageIds_cons_of_not_tool (messageKinds.not_both m ho), toolMessageIds_append,
        toolMessageIds_of_tools ha] at hids
      have hkept : (m.toolCalls.filter fun tc => decide (tc.id ≠ [] ∧ tc.id ∈ ids)) =
          m.toolCalls := by
        rw [List.filter_eq_self]
        intro tc htc
        obtain ⟨hne, hmem⟩ := hr tc.id (List.mem_map_of_mem htc)
        exact decide_eq_true ⟨hne, hids tc.id (List.mem_append_left _ hmem) hne⟩
      rw [stripOrphanCalls_cons, if_pos ho, hkept, if_neg fun h => ho.2 h.1,
        stripOrphanCalls_append_of_not_opens ids fun a hmem => not_opens_of_tool (ha a hmem),
        ih fun id hid => hids id (List.mem_append_right _ hid)]

theorem dropOrphanResults_append_list (ids : List Str) (l l' : List Message) :
    (dropOrphanResults ids (l ++ l')).1 =
      (dropOrphanResults ids l).1 ++ (dropOrphanResults ids l').1 := by
  induction l with
  | nil => rfl
  | cons m l ih =>
      rw [List.cons_append, dropOrphanResults_cons, dropOrphanResults_cons, ih]
      split
      · rfl
      · rfl

/-- The second pass only thins out runs of tool messages, which merge with nothing. -/
theorem dropOrphanResults_unmergeable {R : Message → List Message → Prop} {l : List Message}
    (ids : List Str) (h : Grouped messageKinds R l) (hchain : Unmergeable l) :
    Unmergeable (dropOrphanResults ids l).1 := by
  induction h with
  | nil => exact hchain
  | @plain m rest ho ha hrest ih =>
      have hkeep : ¬ (m.isTool ∧ m.toolCallId ∉ ids) := fun h => ha h.1
      obtain ⟨hhead, htail⟩ := List.isChain_cons.mp hchain
      rw [dropOrphanResults_cons, if_neg hkeep]
      refine List.isChain_cons.mpr ⟨?_, ih htail⟩
      -- the next message is not a tool message, so it stays
      cases hrest with
      | nil => simp [dropOrphanResults]
      | @plain x _ _ hx _ =>
          rw [dropOrphanResults_cons, if_neg fun h => hx h.1]
          exact hhead
      | @group x _ _ hx _ _ _ =>
          rw [dropOrphanResults_cons, if_neg fun h => messageKinds.not_both x hx h.1]
          exact hhead
  | @group m answers rest ho ha _ _ ih =>
      have hkeep : ¬ (m.isTool ∧ m.toolCallId ∉ ids) := fun h => messageKinds.not_both m ho h.1
      rw [dropOrphanResults_cons, if_neg hkeep, dropOrphanResults_append_list, ← List.cons_append]
      refine unmergeable_append ?_ (ih (List.IsChain.right_of_append (List.IsChain.tail hchain)))
      intro x hx
      rcases List.mem_cons.mp hx with rfl | hx
      · exact canMerge_of_opens_left ho
      · exact canMerge_of_tool_left (ha x ((dropOrphanResults_sublist ids answers).subset hx))

/-! ## The whole window -/

/-- Adjacent messages of the window cannot be merged, for a history whose calls
are all answered right behind them and whose older segments each hold something
for a summary. -/
theorem getContextWindow_unmergeable (config : ContextConfig)
    (hmax : 1 ≤ config.maxMessages.toInt) (memoryBuffer : List Message)
    (hanswered : Grouped messageKinds Answered memoryBuffer)
    (hsummarised : ∀ segment ∈ (buildMessageSegments (sanitize memoryBuffer)).dropLast,
      ∃ m ∈ segment.slice (sanitize memoryBuffer), Summarised m) :
    Unmergeable (getContextWindow config memoryBuffer) := by
  unfold getContextWindow
  split
  · exact List.isChain_nil
  · rw [applyContextLimits_eq, truncateFront_eq_drop config hmax]
    have hselected := selectMessages_grouped config (sanitize_grouped hanswered)
    have hchain := (selectMessages_unmergeable config (sanitize_isChain memoryBuffer)
      hsummarised).drop ((selectMessages config (sanitize memoryBuffer)).length -
        config.maxMessages.toInt.toNat)
    obtain ⟨orphans, rest, hdrop, htools, hrest, _⟩ := hselected.drop
      ((selectMessages config (sanitize memoryBuffer)).length - config.maxMessages.toInt.toNat)
    rw [hdrop] at hchain ⊢
    have hstrip : (dropOrphanToolCalls (orphans ++ rest)).1 = orphans ++ rest := by
      unfold dropOrphanToolCalls
      rw [stripOrphanCalls_append_of_not_opens _ fun m hm => not_opens_of_tool (htools m hm),
        stripOrphanCalls_answered hrest]
      intro id hid hne
      rw [mem_toolResultIds, toolMessageIds_append]
      exact ⟨hne, List.mem_append_right _ hid⟩
    change Unmergeable (dropOrphanResults
      (assistantCallIds (dropOrphanToolCalls (orphans ++ rest)).1)
      (dropOrphanToolCalls (orphans ++ rest)).1).1
    rw [hstrip, dropOrphanResults_append_list]
    refine unmergeable_append (fun m hm => ?_)
      (dropOrphanResults_unmergeable _ hrest (List.IsChain.right_of_append hchain))
    exact canMerge_of_tool_left (htools m ((dropOrphanResults_sublist _ _).subset hm))

/-- A question whose only call was never answered, and the next question. -/
def unansweredHistory : List Message :=
  [{ role := Role.user, content := lit "first" },
    { role := Role.assistant, toolCalls := [⟨lit "call_1", lit "search", lit "[]"⟩] },
    { role := Role.user, content := lit "second" }]

/-- The pairing pass removes the assistant message between two user messages. -/
theorem getContextWindow_mergeable :
    ¬ ∀ (config : ContextConfig) (memoryBuffer : List Message), 1 ≤ config.maxMessages.toInt →
      (∀ m ∈ memoryBuffer, m.isUser ∨ m.isAssistant ∨ m.isTool ∨ m.role = Role.system) →
      Unmergeable (getContextWindow config memoryBuffer) := by
  intro h
  have hchain := h { maxContextTokens := 100, maxMessages := 10 } unansweredHistory
    (by decide) (by decide)
  have hwindow : getContextWindow { maxContextTokens := 100, maxMessages := 10 }
      unansweredHistory = [{ role := Role.user, content := lit "first" },
        { role := Role.user, content := lit "second" }] := by
    decide +kernel
  rw [hwindow] at hchain
  exact absurd (List.isChain_cons_cons.mp hchain).1 (by decide)

/-- A question answered by one call and a text, and the next question. -/
def answeredHistory : List Message :=
  [{ role := Role.user, content := lit "first" },
    { role := Role.assistant, toolCalls := [⟨lit "call_1", lit "search", lit "[]"⟩] },
    { role := Role.tool, content := lit "found", toolCallId := lit "call_1" },
    { role := Role.assistant, content := lit "done" },
    { role := Role.user, content := lit "second" }]

theorem answeredHistory_answered : Grouped messageKinds Answered answeredHistory := by
  have hlast : Grouped messageKinds Answered
      [{ role := Role.assistant, content := lit "done" },
        { role := Role.user, content := lit "second" }] := by
    refine .of_plain fun m hm => ?_
    change ¬ m.opensCalls ∧ ¬ m.isTool
    revert m
    decide
  have hround : Answered
      { role := Role.assistant, toolCalls := [⟨lit "call_1", lit "search", lit "[]"⟩] }
      [{ role := Role.tool, content := lit "found", toolCallId := lit "call_1" }] := by
    unfold Answered
    decide
  have hgroup := Grouped.group (K := messageKinds) (show Message.opensCalls _ by decide)
    (show ∀ a ∈ _, Message.isTool a by decide) hround hlast
  exact .plain (show ¬ Message.opensCalls _ by decide) (show ¬ Message.isTool _ by decide) hgroup

theorem getContextWindow_unmergeable_answered :
    Unmergeable (getContextWindow { maxContextTokens := 4, maxMessages := 10 } answeredHistory) :=
  getContextWindow_unmergeable _ (by decide) answeredHistory answeredHistory_answered
    (by unfold Summarised; decide +kernel)

end JiuwenCore.ContextEngine
