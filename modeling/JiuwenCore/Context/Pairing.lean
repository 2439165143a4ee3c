import JiuwenCore.Lib.CallGroups
import JiuwenCore.Context.Limits

/-!
# The window is protocol-valid

The history the worker persists is grouped: every run of tool messages stands
right after the assistant message that asked for them and answers part of its
calls. Merging, the cut of the segments and the compression keep the groups
whole, the truncation leaves at most the rest of one group in front, and the two
pairing passes then remove exactly what has no partner.
-/

namespace JiuwenCore.ContextEngine

open CallGroups

/-- Assistant messages with tool calls open a group, tool messages answer one. -/
def messageKinds : Kinds Message where
  opens := Message.opensCalls
  answers := Message.isTool
  not_both := fun _ ho ha => Role.assistant_ne_tool (ho.1.symm.trans ha)

/-- Every group is a call list and one tool message for each of its ids, in order. -/
def ProtocolValid (messages : List Message) : Prop :=
  Grouped messageKinds (FullyAnswered Message.callIds Message.toolCallId) messages

/-! ## The ids in a history -/

/-- The ids of the calls a message asks for. -/
def askedIds (m : Message) : List Str := if m.isAssistant then m.callIds else []

def historyCallIds (messages : List Message) : List Str := messages.flatMap askedIds

/-- The ids of the tool messages, in order. -/
def toolMessageIds (messages : List Message) : List Str :=
  (messages.filter fun m => m.isTool).map (·.toolCallId)

/-- The histories the worker persists. -/
structure ReactHistory (messages : List Message) : Prop where
  grouped : Grouped messageKinds (PartlyAnswered Message.callIds Message.toolCallId) messages
  ids_ne_nil : ∀ id ∈ historyCallIds messages, id ≠ []
  ids_nodup : (historyCallIds messages).Nodup

theorem askedIds_of_opens {m : Message} (h : m.opensCalls) : askedIds m = m.callIds := by
  simp [askedIds, h.1]

theorem askedIds_of_not_opens {m : Message} (h : ¬ m.opensCalls) : askedIds m = [] := by
  unfold askedIds
  split
  · rename_i ha
    have hnil : m.toolCalls = [] := by
      by_contra hne
      exact h ⟨ha, hne⟩
    simp [Message.callIds, hnil]
  · rfl

theorem not_opens_of_tool {m : Message} (h : m.isTool) : ¬ m.opensCalls :=
  fun ho => messageKinds.not_both m ho h

theorem not_opens_of_user {m : Message} (h : m.isUser) : ¬ m.opensCalls :=
  fun ho => Role.user_ne_assistant (h.symm.trans ho.1)

theorem not_tool_of_user {m : Message} (h : m.isUser) : ¬ m.isTool :=
  fun ht => Role.user_ne_tool (h.symm.trans ht)

@[simp] theorem historyCallIds_nil : historyCallIds [] = [] := rfl

@[simp] theorem historyCallIds_cons (m : Message) (l : List Message) :
    historyCallIds (m :: l) = askedIds m ++ historyCallIds l := rfl

@[simp] theorem historyCallIds_append (l l' : List Message) :
    historyCallIds (l ++ l') = historyCallIds l ++ historyCallIds l' := by
  simp [historyCallIds]

@[simp] theorem toolMessageIds_append (l l' : List Message) :
    toolMessageIds (l ++ l') = toolMessageIds l ++ toolMessageIds l' := by
  simp [toolMessageIds]

theorem toolMessageIds_cons_of_not_tool {m : Message} (h : ¬ m.isTool) (l : List Message) :
    toolMessageIds (m :: l) = toolMessageIds l := by
  unfold toolMessageIds
  rw [List.filter_cons_of_neg (by simpa using h)]

theorem toolMessageIds_of_tools {l : List Message} (h : ∀ m ∈ l, m.isTool) :
    toolMessageIds l = l.map (·.toolCallId) := by
  unfold toolMessageIds
  rw [List.filter_eq_self.mpr fun m hm => by simpa using h m hm]

theorem historyCallIds_of_not_opens {l : List Message} (h : ∀ m ∈ l, ¬ m.opensCalls) :
    historyCallIds l = [] := by
  rw [historyCallIds, List.flatMap_eq_nil_iff]
  exact fun m hm => askedIds_of_not_opens (h m hm)

theorem ReactHistory.of_prefix {l l' : List Message} (h : ReactHistory l') (hp : l <+: l') :
    ReactHistory l := by
  rcases hp with ⟨rest, rfl⟩
  have hids := historyCallIds_append l rest
  have hgrouped := h.grouped.take_partly l.length
  rw [List.take_left] at hgrouped
  have hnodup := h.ids_nodup
  rw [hids] at hnodup
  exact ⟨hgrouped, fun id hid => h.ids_ne_nil id (hids ▸ List.mem_append_left _ hid),
    hnodup.of_append_left⟩

theorem mem_toolResultIds (messages : List Message) (id : Str) :
    id ∈ toolResultIds messages ↔ id ≠ [] ∧ id ∈ toolMessageIds messages := by
  simp only [toolResultIds, toolMessageIds, List.mem_map, List.mem_filter, decide_eq_true_eq]
  constructor
  · intro hmem
    rcases hmem with ⟨m, ⟨hm, ht, hne⟩, rfl⟩
    exact ⟨hne, m, ⟨hm, ht⟩, rfl⟩
  · intro hmem
    rcases hmem with ⟨hne, m, ⟨hm, ht⟩, rfl⟩
    exact ⟨m, ⟨hm, ht, hne⟩, rfl⟩

theorem mem_assistantCallIds (messages : List Message) (id : Str) :
    id ∈ assistantCallIds messages ↔ id ≠ [] ∧ id ∈ historyCallIds messages := by
  simp only [assistantCallIds, historyCallIds, askedIds, List.mem_flatMap, List.mem_filter,
    decide_eq_true_eq]
  constructor
  · intro hmem
    rcases hmem with ⟨m, ⟨hm, ha⟩, hid, hne⟩
    exact ⟨hne, m, hm, by rw [if_pos ha]; exact hid⟩
  · intro hmem
    rcases hmem with ⟨hne, m, hm, hid⟩
    split at hid
    · rename_i ha
      exact ⟨m, ⟨hm, ha⟩, hid, hne⟩
    · exact absurd hid List.not_mem_nil

/-- In a grouped history every tool message answers a call of the history. -/
theorem toolMessageIds_subset {l : List Message}
    (h : Grouped messageKinds (PartlyAnswered Message.callIds Message.toolCallId) l) :
    ∀ id ∈ toolMessageIds l, id ∈ historyCallIds l := by
  induction h with
  | nil => simp [toolMessageIds]
  | plain ho ha _ ih =>
      intro id hid
      rw [toolMessageIds_cons_of_not_tool ha] at hid
      exact List.mem_append_right _ (ih id hid)
  | @group m answers rest ho ha hr _ ih =>
      intro id hid
      rw [toolMessageIds_cons_of_not_tool (messageKinds.not_both m ho), toolMessageIds_append,
        toolMessageIds_of_tools ha] at hid
      rw [historyCallIds_cons, askedIds_of_opens ho, historyCallIds_append]
      rcases List.mem_append.mp hid with hid | hid
      · exact List.mem_append_left _ (hr.subset hid)
      · exact List.mem_append_right _ (List.mem_append_right _ (ih id hid))

/-! ## Merging -/

theorem canMerge_of_opens_left {m : Message} (h : m.opensCalls) (x : Message) :
    canMerge m x = false := by
  rw [Bool.eq_false_iff]
  intro hm
  exact h.2 (((canMerge_iff m x).mp hm).2.2 h.1).1

theorem canMerge_of_opens_right {m : Message} (h : m.opensCalls) (x : Message) :
    canMerge x m = false := by
  rw [Bool.eq_false_iff]
  intro hm
  obtain ⟨hrole, _, hcalls⟩ := (canMerge_iff x m).mp hm
  exact h.2 (hcalls (hrole.trans h.1)).2

theorem canMerge_of_tool_left {m : Message} (h : m.isTool) (x : Message) :
    canMerge m x = false := by
  rw [Bool.eq_false_iff]
  intro hm
  exact ((canMerge_iff m x).mp hm).2.1 h

theorem mergeInto_of_no_merge {m : Message} (h : ∀ x, canMerge m x = false) (l : List Message) :
    mergeInto m l = m :: sanitize l := by
  cases l with
  | nil => rfl
  | cons x rest =>
      rw [mergeInto, h x]
      rfl

theorem sanitize_tools_append {answers : List Message} (h : ∀ a ∈ answers, a.isTool)
    (rest : List Message) : sanitize (answers ++ rest) = answers ++ sanitize rest := by
  induction answers with
  | nil => rfl
  | cons a answers ih =>
      rw [List.cons_append, sanitize,
        mergeInto_of_no_merge (canMerge_of_tool_left (h a List.mem_cons_self)),
        ih fun x hx => h x (List.mem_cons_of_mem a hx), List.cons_append]

theorem sanitize_group {m : Message} (ho : m.opensCalls) {answers : List Message}
    (ha : ∀ a ∈ answers, a.isTool) (rest : List Message) :
    mergeInto m (answers ++ rest) = m :: (answers ++ sanitize rest) := by
  rw [mergeInto_of_no_merge (canMerge_of_opens_left ho), sanitize_tools_append ha]

/-- Merging never touches a group: it only joins messages outside of groups. -/
theorem sanitize_grouped_aux {R : Message → List Message → Prop} {l : List Message}
    (h : Grouped messageKinds R l) :
    Grouped messageKinds R (sanitize l) ∧
      ∀ back, ¬ back.opensCalls → ¬ back.isTool → Grouped messageKinds R (mergeInto back l) := by
  induction h with
  | nil => exact ⟨.nil, fun back ho ha => .plain ho ha .nil⟩
  | @plain m rest ho ha _ ih =>
      refine ⟨ih.2 m ho ha, fun back hbo hba => ?_⟩
      unfold mergeInto
      split
      · exact ih.2 _ hbo hba
      · exact .plain hbo hba (ih.2 m ho ha)
  | @group m answers rest ho ha hr _ ih =>
      have hgroup : Grouped messageKinds R (mergeInto m (answers ++ rest)) := by
        rw [sanitize_group ho ha]
        exact .group ho ha hr ih.1
      refine ⟨hgroup, fun back hbo hba => ?_⟩
      rw [mergeInto, canMerge_of_opens_right ho, if_neg Bool.false_ne_true]
      exact .plain hbo hba hgroup

theorem sanitize_grouped {R : Message → List Message → Prop} {l : List Message}
    (h : Grouped messageKinds R l) : Grouped messageKinds R (sanitize l) :=
  (sanitize_grouped_aux h).1

theorem historyCallIds_mergeInto (back : Message) (rest : List Message) :
    historyCallIds (mergeInto back rest) = historyCallIds (back :: rest) := by
  induction rest generalizing back with
  | nil => rfl
  | cons msg rest ih =>
      unfold mergeInto
      split
      · rename_i hm
        obtain ⟨hrole, _, hcalls⟩ := (canMerge_iff back msg).mp hm
        have hback : ¬ back.opensCalls := fun h => h.2 (hcalls h.1).1
        have hmsg : ¬ msg.opensCalls := fun h => h.2 (hcalls (hrole.trans h.1)).2
        have hmerged : ¬ Message.opensCalls
            { back with content := mergeMessageContent back.content msg.content } := hback
        rw [ih, historyCallIds_cons, historyCallIds_cons, historyCallIds_cons,
          askedIds_of_not_opens hmerged, askedIds_of_not_opens hback, askedIds_of_not_opens hmsg]
        rfl
      · rw [historyCallIds_cons, historyCallIds_cons, ih]

theorem historyCallIds_sanitize (messages : List Message) :
    historyCallIds (sanitize messages) = historyCallIds messages := by
  cases messages with
  | nil => rfl
  | cons msg rest => exact historyCallIds_mergeInto msg rest

theorem ReactHistory.sanitize {messages : List Message} (h : ReactHistory messages) :
    ReactHistory (ContextEngine.sanitize messages) where
  grouped := sanitize_grouped h.grouped
  ids_ne_nil := by
    rw [historyCallIds_sanitize]
    exact h.ids_ne_nil
  ids_nodup := by
    rw [historyCallIds_sanitize]
    exact h.ids_nodup

/-! ## Selecting segments -/

/-- Both cuts of the walk are outside of groups. -/
theorem selection_grouped (config : ContextConfig) {R : Message → List Message → Prop}
    {sanitized : List Message} (h : Grouped messageKinds R sanitized) :
    Grouped messageKinds R ((selection config sanitized).boundaryMessages sanitized) ∧
      Grouped messageKinds R ((selection config sanitized).newest sanitized) := by
  obtain ⟨dropped, hsanitized, hnone, hcutBoundary, hcutNewest⟩ := selection_cut config sanitized
  rw [hsanitized] at h
  rcases hcutNewest with hb | hcutNewest
  · have hboundary : (selection config sanitized).boundaryMessages sanitized = [] := by
      simp [Selection.boundaryMessages, hb]
    rw [hnone hb, hboundary, List.nil_append, List.nil_append] at h
    rw [hboundary]
    exact ⟨.nil, h⟩
  · obtain ⟨hfront, hnewest⟩ := h.split rfl fun m hm => not_tool_of_user (hcutNewest m hm)
    rcases hcutBoundary with hnil | hcutBoundary
    · rw [hnil, List.nil_append] at hfront
      exact ⟨hfront, hnewest⟩
    · exact ⟨(hfront.split rfl fun m hm => not_tool_of_user (hcutBoundary m hm)).2, hnewest⟩

/-- The compressed boundary is the boundary itself or holds no group at all. -/
theorem compressBoundary_groups (config : ContextConfig) (sanitized : List Message) :
    compressBoundary config sanitized (selection config sanitized) =
        (selection config sanitized).boundaryMessages sanitized ∨
      ∀ m ∈ compressBoundary config sanitized (selection config sanitized),
        ¬ m.opensCalls ∧ ¬ m.isTool := by
  unfold compressBoundary
  cases hb : (selection config sanitized).boundary with
  | none => exact Or.inr (by simp)
  | some segment =>
      have hrange := buildMessageSegments_range sanitized segment (selection_boundary_mem hb)
      have hboundary : (selection config sanitized).boundaryMessages sanitized =
          segment.slice sanitized := by
        simp [Selection.boundaryMessages, hb]
      have hbudget : 0 <
          max (config.maxContextTokens.toInt - (selection config sanitized).totalTokens) 1 := by
        omega
      have hopening : ∀ m ∈ openingUser (segment.slice sanitized),
          ¬ m.opensCalls ∧ ¬ m.isTool := by
        intro m hm
        have hu := openingUser_isUser _ m hm
        exact ⟨not_opens_of_user hu, not_tool_of_user hu⟩
      rw [hboundary]
      rcases compressSegment_cases config sanitized segment hbudget hrange with
        ⟨heq, _⟩ | ⟨heq, _⟩ | ⟨content, _, heq, _⟩
      · exact Or.inl heq
      · right
        dsimp only
        rw [heq]
        exact hopening
      · right
        dsimp only
        rw [heq]
        intro m hm
        rcases List.mem_append.mp hm with hm | hm
        · exact hopening m hm
        · rw [List.mem_singleton.mp hm]
          exact ⟨fun ho => ho.2 rfl, Role.assistant_ne_tool⟩

theorem selectMessages_grouped (config : ContextConfig) {R : Message → List Message → Prop}
    {sanitized : List Message} (h : Grouped messageKinds R sanitized) :
    Grouped messageKinds R (selectMessages config sanitized) := by
  obtain ⟨hboundary, hnewest⟩ := selection_grouped config h
  rw [selectMessages_eq]
  rcases compressBoundary_groups config sanitized with heq | hplain
  · rw [heq]
    exact hboundary.append hnewest
  · exact (Grouped.of_plain hplain).append hnewest

/-- The walk adds no call ids. -/
theorem historyCallIds_selectMessages (config : ContextConfig) (sanitized : List Message) :
    (historyCallIds (selectMessages config sanitized)).Sublist (historyCallIds sanitized) := by
  obtain ⟨dropped, hsanitized, _⟩ := selection_cut config sanitized
  have hboundary : (historyCallIds
      (compressBoundary config sanitized (selection config sanitized))).Sublist
        (historyCallIds ((selection config sanitized).boundaryMessages sanitized)) := by
    rcases compressBoundary_groups config sanitized with heq | hplain
    · rw [heq]
    · rw [historyCallIds_of_not_opens fun m hm => (hplain m hm).1]
      exact List.nil_sublist _
  have hwhole : historyCallIds sanitized = historyCallIds dropped ++
      (historyCallIds ((selection config sanitized).boundaryMessages sanitized) ++
        historyCallIds ((selection config sanitized).newest sanitized)) := by
    conv_lhs => rw [hsanitized]
    rw [historyCallIds_append, historyCallIds_append, List.append_assoc]
  rw [selectMessages_eq, historyCallIds_append, hwhole]
  exact (hboundary.append_right _).trans (List.sublist_append_right _ _)

theorem ReactHistory.selectMessages (config : ContextConfig) {sanitized : List Message}
    (h : ReactHistory sanitized) :
    ReactHistory (ContextEngine.selectMessages config sanitized) where
  grouped := selectMessages_grouped config h.grouped
  ids_ne_nil := fun id hid =>
    h.ids_ne_nil id ((historyCallIds_selectMessages config sanitized).subset hid)
  ids_nodup := h.ids_nodup.sublist (historyCallIds_selectMessages config sanitized)

/-! ## Truncation -/

/-- What the pairing passes are given: tool messages whose call was cut off, and
behind them a history of the worker. -/
theorem ReactHistory.drop {messages : List Message} (h : ReactHistory messages) (n : Nat) :
    ∃ orphans rest, messages.drop n = orphans ++ rest ∧ (∀ m ∈ orphans, m.isTool) ∧
      ReactHistory rest ∧ ∀ id ∈ orphans.map (·.toolCallId), id ∉ historyCallIds rest := by
  obtain ⟨orphans, rest, hdrop, htools, hg, horigin⟩ := h.grouped.drop n
  have hsub : (historyCallIds rest).Sublist (historyCallIds messages) := by
    rw [← List.take_append_drop n messages, hdrop, historyCallIds_append, historyCallIds_append]
    exact (List.sublist_append_right _ _).trans (List.sublist_append_right _ _)
  have hrest : ReactHistory rest :=
    ⟨hg, fun id hid => h.ids_ne_nil id (hsub.subset hid), h.ids_nodup.sublist hsub⟩
  refine ⟨orphans, rest, hdrop, htools, hrest, ?_⟩
  rcases horigin with rfl | ⟨before, m, answers, heq, ho, hr, hsuffix⟩
  · simp
  · intro id hid hmem
    have hcall : id ∈ m.callIds := hr.subset (List.map_subset _ hsuffix.subset hid)
    have hnodup := h.ids_nodup
    rw [heq, historyCallIds_append, historyCallIds_cons, historyCallIds_append,
      askedIds_of_opens ho] at hnodup
    have hdisjoint := (List.nodup_append.mp hnodup.of_append_right).2.2
    exact hdisjoint id hcall id (List.mem_append_right _ hmem) rfl

/-! ## The pairing passes -/

/-- Of the calls of one group the first pass keeps those that are answered. -/
theorem kept_calls {m : Message} {answers : List Message} {ids : List Str}
    (hr : PartlyAnswered Message.callIds Message.toolCallId m answers) (hnd : m.callIds.Nodup)
    (hids : ∀ id ∈ m.callIds, id ≠ [] ∧ (id ∈ ids ↔ id ∈ answers.map (·.toolCallId))) :
    (m.toolCalls.filter fun tc => decide (tc.id ≠ [] ∧ tc.id ∈ ids)).map (·.id) =
      answers.map (·.toolCallId) := by
  have hfilter : m.callIds.filter (fun id => decide (id ≠ [] ∧ id ∈ ids)) =
      answers.map (·.toolCallId) := by
    refine filter_of_sublist hr hnd fun id hid => ?_
    obtain ⟨hne, hiff⟩ := hids id hid
    rw [decide_eq_true_iff, hiff]
    exact ⟨fun h => h.2, fun h => ⟨hne, h⟩⟩
  rw [Message.callIds, List.filter_map] at hfilter
  exact hfilter

/-- The first pass turns partly answered groups into fully answered ones. `ids`
are the ids of the tool messages of the whole window. -/
theorem stripOrphanCalls_grouped {ids : List Str} {l : List Message}
    (h : Grouped messageKinds (PartlyAnswered Message.callIds Message.toolCallId) l)
    (hnd : (historyCallIds l).Nodup)
    (hids : ∀ id ∈ historyCallIds l, id ≠ [] ∧ (id ∈ ids ↔ id ∈ toolMessageIds l)) :
    ProtocolValid (stripOrphanCalls ids l).1 := by
  induction h with
  | nil => exact .nil
  | @plain m rest ho ha hrest ih =>
      change ¬ m.opensCalls at ho
      have hasked := askedIds_of_not_opens ho
      rw [historyCallIds_cons, hasked, List.nil_append] at hnd hids
      rw [toolMessageIds_cons_of_not_tool ha] at hids
      rw [stripOrphanCalls_cons, if_neg ho]
      exact .plain ho ha (ih hnd hids)
  | @group m answers rest ho ha hr hrest ih =>
      change m.opensCalls at ho
      have hanswers : ∀ a ∈ answers, ¬ a.opensCalls := fun a hmem => not_opens_of_tool (ha a hmem)
      have htools : toolMessageIds (m :: (answers ++ rest)) =
          answers.map (·.toolCallId) ++ toolMessageIds rest := by
        rw [toolMessageIds_cons_of_not_tool (messageKinds.not_both m ho), toolMessageIds_append,
          toolMessageIds_of_tools ha]
      rw [htools] at hids
      rw [historyCallIds_cons, askedIds_of_opens ho, historyCallIds_append,
        historyCallIds_of_not_opens hanswers, List.nil_append] at hnd hids
      obtain ⟨hndHere, hndRest, hdisjoint⟩ := List.nodup_append.mp hnd
      have hrestIds := toolMessageIds_subset hrest
      -- the ids of this group and of the rest are told apart by the set test
      have hhere : ∀ id ∈ m.callIds,
          id ≠ [] ∧ (id ∈ ids ↔ id ∈ answers.map (·.toolCallId)) := by
        intro id hid
        obtain ⟨hne, hiff⟩ := hids id (List.mem_append_left _ hid)
        refine ⟨hne, hiff.trans ⟨fun hmem => ?_, fun hmem => List.mem_append_left _ hmem⟩⟩
        rcases List.mem_append.mp hmem with hmem | hmem
        · exact hmem
        · exact absurd rfl (hdisjoint id hid id (hrestIds id hmem))
      have hthere : ∀ id ∈ historyCallIds rest,
          id ≠ [] ∧ (id ∈ ids ↔ id ∈ toolMessageIds rest) := by
        intro id hid
        obtain ⟨hne, hiff⟩ := hids id (List.mem_append_right _ hid)
        refine ⟨hne, hiff.trans ⟨fun hmem => ?_, fun hmem => List.mem_append_right _ hmem⟩⟩
        rcases List.mem_append.mp hmem with hmem | hmem
        · exact absurd rfl (hdisjoint id (hr.subset hmem) id hid)
        · exact hmem
      have hkept := kept_calls hr hndHere hhere
      rw [stripOrphanCalls_cons, if_pos ho, stripOrphanCalls_append_of_not_opens ids hanswers]
      generalize (m.toolCalls.filter fun tc => decide (tc.id ≠ [] ∧ tc.id ∈ ids)) = kept at hkept ⊢
      cases kept with
      | nil =>
          have hnone : answers = [] := by simpa using hkept.symm
          rw [hnone, List.nil_append]
          split
          · exact ih hndRest hthere
          · refine .plain (fun h => h.2 rfl) ?_ (ih hndRest hthere)
            exact messageKinds.not_both m ho
      | cons tc kept =>
          rw [if_neg (by simp)]
          exact .group ⟨ho.1, List.cons_ne_nil tc kept⟩ ha hkept.symm (ih hndRest hthere)

theorem historyCallIds_stripOrphanCalls (ids : List Str) (l : List Message) :
    ∀ id ∈ historyCallIds (stripOrphanCalls ids l).1, id ∈ historyCallIds l := by
  induction l with
  | nil => exact fun id hid => hid
  | cons m rest ih =>
      intro id hid
      rw [stripOrphanCalls_cons] at hid
      rw [historyCallIds_cons]
      split at hid
      · rename_i ho
        split at hid
        · exact List.mem_append_right _ (ih id hid)
        · rw [historyCallIds_cons] at hid
          rcases List.mem_append.mp hid with hid | hid
          · rw [askedIds_of_opens ho]
            have hcalls : ∀ kept : List ToolCall, (askedIds { m with toolCalls := kept }) =
                kept.map (·.id) := fun kept => by simp [askedIds, ho.1, Message.callIds]
            rw [hcalls] at hid
            exact List.mem_append_left _
              (List.map_subset _ (List.filter_sublist.subset) hid)
          · exact List.mem_append_right _ (ih id hid)
      · rw [historyCallIds_cons] at hid
        rcases List.mem_append.mp hid with hid | hid
        · exact List.mem_append_left _ hid
        · exact List.mem_append_right _ (ih id hid)

/-- The second pass removes the orphans in front and nothing else. -/
theorem dropOrphanResults_append {ids : List Str} {orphans : List Message}
    (htools : ∀ m ∈ orphans, m.isTool) (hgone : ∀ m ∈ orphans, m.toolCallId ∉ ids)
    {rest : List Message} (hkeep : ∀ m ∈ rest, m.isTool → m.toolCallId ∈ ids) :
    (dropOrphanResults ids (orphans ++ rest)).1 = rest := by
  induction orphans with
  | nil =>
      rw [List.nil_append]
      induction rest with
      | nil => rfl
      | cons m rest ih =>
          rw [dropOrphanResults_cons, if_neg, ih fun x hx => hkeep x (List.mem_cons_of_mem m hx)]
          exact fun h => h.2 (hkeep m List.mem_cons_self h.1)
  | cons m orphans ih =>
      rw [List.cons_append, dropOrphanResults_cons, if_pos ⟨htools m List.mem_cons_self,
        hgone m List.mem_cons_self⟩]
      exact ih (fun x hx => htools x (List.mem_cons_of_mem m hx))
        (fun x hx => hgone x (List.mem_cons_of_mem m hx))

/-- Orphaned tool messages in front of a history of the worker are removed, and
the calls that stay are exactly the answered ones. -/
theorem dropUnpaired_valid {orphans rest : List Message} (htools : ∀ m ∈ orphans, m.isTool)
    (h : ReactHistory rest) (hgone : ∀ id ∈ orphans.map (·.toolCallId), id ∉ historyCallIds rest) :
    ProtocolValid (dropUnpairedToolMessages (orphans ++ rest)).1 := by
  have horphans : ∀ m ∈ orphans, ¬ m.opensCalls := fun m hm => not_opens_of_tool (htools m hm)
  have hstrip : (dropOrphanToolCalls (orphans ++ rest)).1 =
      orphans ++ (stripOrphanCalls (toolResultIds (orphans ++ rest)) rest).1 :=
    stripOrphanCalls_append_of_not_opens _ horphans rest
  have hids : ∀ id ∈ historyCallIds rest,
      id ≠ [] ∧ (id ∈ toolResultIds (orphans ++ rest) ↔ id ∈ toolMessageIds rest) := by
    intro id hid
    have hne := h.ids_ne_nil id hid
    refine ⟨hne, ?_⟩
    rw [mem_toolResultIds, toolMessageIds_append, List.mem_append, toolMessageIds_of_tools htools]
    exact ⟨fun hmem => hmem.2.resolve_left fun hleft => hgone id hleft hid,
      fun hmem => ⟨hne, Or.inr hmem⟩⟩
  have hvalid := stripOrphanCalls_grouped h.grouped h.ids_nodup hids
  have hsub := historyCallIds_stripOrphanCalls (toolResultIds (orphans ++ rest)) rest
  change ProtocolValid (dropOrphanResults
    (assistantCallIds (dropOrphanToolCalls (orphans ++ rest)).1)
    (dropOrphanToolCalls (orphans ++ rest)).1).1
  rw [hstrip]
  generalize (stripOrphanCalls (toolResultIds (orphans ++ rest)) rest).1 = cleaned
    at hvalid hsub ⊢
  have hcalls : historyCallIds (orphans ++ cleaned) = historyCallIds cleaned := by
    rw [historyCallIds_append, historyCallIds_of_not_opens horphans, List.nil_append]
  rw [dropOrphanResults_append htools]
  · exact hvalid
  · intro m hm hmem
    rw [mem_assistantCallIds, hcalls] at hmem
    exact hgone m.toolCallId (List.mem_map_of_mem hm) (hsub _ hmem.2)
  · intro m hm ht
    have hid : m.toolCallId ∈ historyCallIds cleaned :=
      toolMessageIds_subset (hvalid.mono fun _ _ => FullyAnswered.partly _ _) _
        (List.mem_map_of_mem (List.mem_filter.mpr ⟨hm, by simpa using ht⟩))
    rw [mem_assistantCallIds, hcalls]
    exact ⟨h.ids_ne_nil _ (hsub _ hid), hid⟩

/-! ## The whole window -/

theorem applyContextLimits_valid (config : ContextConfig) (hmax : 1 ≤ config.maxMessages.toInt)
    {messages : List Message} (h : ReactHistory messages) :
    ProtocolValid (applyContextLimits config messages) := by
  rw [applyContextLimits_eq, truncateFront_eq_drop config hmax]
  obtain ⟨orphans, rest, hdrop, htools, hrest, hgone⟩ := (h.sanitize.selectMessages config).drop
    ((selectMessages config (sanitize messages)).length - config.maxMessages.toInt.toNat)
  rw [hdrop]
  exact dropUnpaired_valid htools hrest hgone

/-- The window over a history of the worker is protocol-valid under any limits. -/
theorem getContextWindow_protocolValid (config : ContextConfig)
    (hmax : 1 ≤ config.maxMessages.toInt) (memoryBuffer : List Message)
    (h : ReactHistory memoryBuffer) : ProtocolValid (getContextWindow config memoryBuffer) := by
  unfold getContextWindow
  split
  · exact .nil
  · exact applyContextLimits_valid config hmax h

/-- A question, a round of two calls of which only the second was answered, and
the next question. -/
def interruptedHistory : List Message :=
  [{ role := Role.user, content := lit "find it" },
    { role := Role.assistant, toolCalls := [⟨lit "call_1", lit "search", lit "[]"⟩,
      ⟨lit "call_2", lit "read", lit "[]"⟩] },
    { role := Role.tool, content := lit "found", toolCallId := lit "call_2" },
    { role := Role.user, content := lit "go on" }]

theorem interruptedHistory_react : ReactHistory interruptedHistory where
  grouped := by
    have hlast : Grouped messageKinds (PartlyAnswered Message.callIds Message.toolCallId)
        [{ role := Role.user, content := lit "go on" }] :=
      .plain (show ¬ Message.opensCalls _ by decide) (show ¬ Message.isTool _ by decide) .nil
    have hround : PartlyAnswered Message.callIds Message.toolCallId
        { role := Role.assistant, toolCalls := [⟨lit "call_1", lit "search", lit "[]"⟩,
          ⟨lit "call_2", lit "read", lit "[]"⟩] }
        [{ role := Role.tool, content := lit "found", toolCallId := lit "call_2" }] := by
      unfold PartlyAnswered
      decide
    have hgroup := Grouped.group (K := messageKinds) (show Message.opensCalls _ by decide)
      (show ∀ a ∈ _, Message.isTool a by decide) hround hlast
    exact .plain (show ¬ Message.opensCalls _ by decide) (show ¬ Message.isTool _ by decide) hgroup
  ids_ne_nil := by decide
  ids_nodup := by decide

theorem getContextWindow_protocolValid_interrupted :
    ProtocolValid (getContextWindow { maxContextTokens := 100, maxMessages := 3 }
      interruptedHistory) :=
  getContextWindow_protocolValid _ (by decide) interruptedHistory interruptedHistory_react

end JiuwenCore.ContextEngine
