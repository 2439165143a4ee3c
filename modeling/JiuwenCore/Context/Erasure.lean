import JiuwenCore.Context.Limits
import JiuwenCore.Context.Ranges

/-!
# The erasure at the front of the window

A limit that is not negative leaves the newest messages. A negative one is greater than every
size once it is cast to `size_t`, and then two messages are enough to erase beyond the end. There
are two when the latest user message has something behind it that a summary keeps.
-/

namespace JiuwenCore.CheckedWindow

open ContextEngine hiding calculateMessageTokens calculateMessagesTokens closeSegment segmentsFrom
  buildMessageSegments truncateSummary compressSegment admitSegments truncateFront
  applyContextLimits

/-! ## Sizes -/

theorem mergeInto_length (back : Message) (rest : List Message) :
    (mergeInto back rest).length ≤ rest.length + 1 := by
  induction rest generalizing back with
  | nil => exact Nat.le_refl 1
  | cons msg rest ih =>
      unfold mergeInto
      split
      · exact Nat.le_succ_of_le (ih _)
      · exact Nat.succ_le_succ (ih msg)

theorem sanitize_length (messages : List Message) :
    (sanitize messages).length ≤ messages.length := by
  cases messages with
  | nil => exact Nat.le_refl 0
  | cons msg rest => exact mergeInto_length msg rest

theorem segmentsFrom_length (messages : List Message) (start i : Nat) (rest : List Message) :
    (ContextEngine.segmentsFrom messages start i rest).length ≤ rest.length + 1 := by
  induction rest generalizing start i with
  | nil => exact Nat.le_refl 1
  | cons msg rest ih =>
      unfold ContextEngine.segmentsFrom
      split
      · exact Nat.succ_le_succ (ih i (i + 1))
      · exact Nat.le_succ_of_le (ih start (i + 1))

theorem buildMessageSegments_length (messages : List Message) :
    (ContextEngine.buildMessageSegments messages).length ≤ messages.length := by
  cases messages with
  | nil => exact Nat.le_refl 0
  | cons first rest => exact segmentsFrom_length (first :: rest) 0 1 rest

theorem not_summarised_of_user {m : Message} (h : m.isUser) : ¬Summarised m := by
  rintro (htool | ⟨hassistant, -⟩)
  · exact Role.user_ne_tool (h.symm.trans htool)
  · exact Role.user_ne_assistant (h.symm.trans hassistant)

theorem compressSegment_length (config : ContextConfig) (messages : List Message)
    (segment : MessageSegment) (tokenBudget : Int) :
    (ContextEngine.compressSegment config messages segment tokenBudget).length ≤
      (segment.slice messages).length := by
  have hopening : (openingUser (segment.slice messages)).length ≤
      (segment.slice messages).length := by
    rcases openingUser_cases (segment.slice messages) with hnil | ⟨first, rest, heq, -, hone⟩
    · simp [hnil]
    · rw [hone, heq]
      exact Nat.succ_le_succ (Nat.zero_le _)
  have hsummary : (∃ m ∈ segment.slice messages, Summarised m) →
      (openingUser (segment.slice messages)).length + 1 ≤ (segment.slice messages).length := by
    rintro ⟨m, hm, hsummarised⟩
    rcases openingUser_cases (segment.slice messages) with hnil | ⟨first, rest, heq, huser, hone⟩
    · rw [hnil]
      exact List.length_pos_of_mem hm
    · rw [hone, heq]
      rw [heq, List.mem_cons] at hm
      rcases hm with rfl | hm
      · exact absurd hsummarised (not_summarised_of_user huser)
      · exact Nat.succ_le_succ (List.length_pos_of_mem hm)
  unfold ContextEngine.compressSegment
  split
  · exact Nat.zero_le _
  · dsimp only
    split
    · exact Nat.le_refl _
    · split
      · rename_i hcollected
        have hlength := hsummary (summarised_of_collected hcollected)
        split <;> simpa using hlength
      · exact hopening

theorem selectMessages_length (config : ContextConfig) (sanitized : List Message) :
    (selectMessages config sanitized).length ≤ sanitized.length := by
  have hmeasure : (selectMessages config sanitized).length ≤ sanitized.length + 0 :=
    selectMessages_measure List.length_nil (fun _ _ => List.length_append)
      (compressSegment_length config sanitized)
  exact hmeasure

/-! ## The erasure -/

theorem truncationExcess_nonneg {config : ContextConfig} (hmax : 0 ≤ config.maxMessages.toInt)
    {size : Nat} (hover : toInt size > config.maxMessages.toInt) (hone : size > 1) :
    truncationExcess config size = size - max config.maxMessages.toInt.toNat 1 := by
  have hcast := toInt_le size
  rw [truncationExcess, toSizeT_of_nonneg hmax, if_pos (by omega)]

/-- A limit that is not negative leaves the newest messages, one at least. -/
theorem truncateFront_nonneg {config : ContextConfig} (hmax : 0 ≤ config.maxMessages.toInt)
    (result : List Message) :
    truncateFront config result = .ok
      (if toInt result.length > config.maxMessages.toInt ∧ result.length > 1 then
        result.drop (result.length - max config.maxMessages.toInt.toNat 1) else result) := by
  unfold truncateFront
  split
  · rename_i hover
    rw [truncationExcess_nonneg hmax hover.1 hover.2, range_of (Nat.zero_le _) (by omega)]
    rfl
  · rfl

theorem toSizeT_of_neg {n : Int32} (h : n.toInt < 0) : toSizeT n = (2 ^ 64 + n.toInt).toNat := by
  have hge : -2 ^ 31 ≤ n.toInt := Int32.le_toInt n
  unfold toSizeT
  rw [Int.emod_eq_add_self_emod, Int.emod_eq_of_lt (by omega) (by omega), Int.add_comm]

/-- A negative limit does not let two messages pass. -/
theorem truncateFront_neg {config : ContextConfig} (hmax : config.maxMessages.toInt < 0)
    {result : List Message} (hlength : result.length = 2) :
    truncateFront config result = .error .range := by
  have hge : -2 ^ 31 ≤ config.maxMessages.toInt := Int32.le_toInt _
  have hcast : toInt result.length = 2 := by rw [hlength]; rfl
  have hexcess : ¬(0 ≤ truncationExcess config result.length ∧
      truncationExcess config result.length ≤ result.length) := by
    rw [truncationExcess, toSizeT_of_neg hmax, hlength, if_neg (by omega)]
    omega
  rw [truncateFront, if_pos ⟨by omega, by omega⟩, range, if_neg hexcess]
  rfl

theorem truncateFront_short {config : ContextConfig} {result : List Message}
    (hlength : result.length ≤ 1) : truncateFront config result = .ok result := by
  rw [truncateFront, if_neg fun h => by omega]
  rfl

/-- The erasure does not add anything. -/
theorem truncateFront_ends (config : ContextConfig) (result : List Message) :
    Ends (truncateFront config result) (·.Sublist result) (· = .range) := by
  unfold truncateFront range
  split
  · split
    · exact List.drop_sublist _ _
    · rfl
  · exact List.Sublist.refl result

/-- What stands among the newest messages is not erased. -/
theorem truncateFront_keeps {config : ContextConfig} (hmax : 0 ≤ config.maxMessages.toInt)
    (older : List Message) {newest : List Message}
    (hlength : newest.length ≤ max config.maxMessages.toInt.toNat 1) {m : Message}
    (hm : m ∈ newest) :
    Ends (truncateFront config (older ++ newest)) (m ∈ ·) fun _ => False := by
  rw [truncateFront_nonneg hmax, ends_ok]
  split
  · rw [List.length_append, List.drop_append_of_le_length (by omega)]
    exact List.mem_append_right _ hm
  · exact List.mem_append_right _ hm

/-- A message without tool calls that is no tool message passes the pairing passes. -/
theorem mem_dropUnpaired {msgs : List Message} {m : Message} (hm : m ∈ msgs)
    (hopens : ¬m.opensCalls) (htool : ¬m.isTool) : m ∈ (dropUnpairedToolMessages msgs).1 :=
  mem_dropOrphanResults (mem_stripOrphanCalls hm hopens) fun h => htool h.1

/-! ## The latest query -/

instance (m : Message) : Decidable (Summarised m) := inferInstanceAs (Decidable (_ ∨ _))

/-- Behind the latest user message stands something that a summary keeps. -/
def Leftover (messages : List Message) : Prop :=
  ∃ older query newer, messages = older ++ query :: newer ∧ query.isUser ∧
    (∀ m ∈ newer, ¬m.isUser) ∧ ∃ m ∈ newer, Summarised m

/-- Whether there was a user message, and something for a summary after the latest one. -/
def afterQuery (seen : Option Bool) (m : Message) : Option Bool :=
  if m.isUser then some false else seen.map (· || decide (Summarised m))

theorem foldl_afterQuery {newer : List Message} (h : ∀ m ∈ newer, ¬m.isUser)
    (seen : Option Bool) : newer.foldl afterQuery seen =
      seen.map (· || newer.any fun m => decide (Summarised m)) := by
  induction newer generalizing seen with
  | nil => simp
  | cons m newer ih =>
      rw [List.foldl_cons, ih fun x hx => h x (List.mem_cons_of_mem m hx), afterQuery,
        if_neg (h m List.mem_cons_self), Option.map_map]
      congr 1
      funext b
      simp [Bool.or_assoc]

theorem foldl_query {query : Message} (hquery : query.isUser) {newer : List Message}
    (h : ∀ m ∈ newer, ¬m.isUser) (older : List Message) :
    (older ++ query :: newer).foldl afterQuery none = some true ↔
      ∃ m ∈ newer, Summarised m := by
  rw [List.foldl_append, List.foldl_cons, foldl_afterQuery h, afterQuery, if_pos hquery]
  simp

/-- The latest user message of a history that has one. -/
theorem query_split {messages : List Message} (h : ∃ m ∈ messages, m.isUser) :
    ∃ older query newer, messages = older ++ query :: newer ∧ query.isUser ∧
      ∀ m ∈ newer, ¬m.isUser := by
  induction messages with
  | nil => simp at h
  | cons m messages ih =>
      by_cases hlater : ∃ x ∈ messages, x.isUser
      · obtain ⟨older, query, newer, rfl, hquery, hnewer⟩ := ih hlater
        exact ⟨m :: older, query, newer, rfl, hquery, hnewer⟩
      · obtain ⟨x, hx, huser⟩ := h
        have hnone : ∀ x ∈ messages, ¬x.isUser := fun x hx hu => hlater ⟨x, hx, hu⟩
        rcases List.mem_cons.mp hx with rfl | hx
        · exact ⟨[], x, messages, rfl, huser, hnone⟩
        · exact absurd huser (hnone x hx)

theorem leftover_iff (messages : List Message) :
    Leftover messages ↔ messages.foldl afterQuery none = some true := by
  constructor
  · rintro ⟨older, query, newer, rfl, hquery, hnewer, hsome⟩
    exact (foldl_query hquery hnewer older).mpr hsome
  · intro h
    by_cases huser : ∃ m ∈ messages, m.isUser
    · obtain ⟨older, query, newer, rfl, hquery, hnewer⟩ := query_split huser
      exact ⟨older, query, newer, rfl, hquery, hnewer, (foldl_query hquery hnewer older).mp h⟩
    · rw [foldl_afterQuery fun m hm hu => huser ⟨m, hm, hu⟩] at h
      cases h

theorem summarised_of_merge {back msg : Message} (h : canMerge back msg = true) :
    Summarised { back with content := mergeMessageContent back.content msg.content } ↔
      Summarised back ∨ Summarised msg := by
  obtain ⟨hrole, htool, hcalls⟩ := (canMerge_iff back msg).mp h
  have htool' : msg.role ≠ Role.tool := hrole ▸ htool
  have hcontent : mergeMessageContent back.content msg.content ≠ [] ↔
      back.content ≠ [] ∨ msg.content ≠ [] := by
    unfold mergeMessageContent
    split_ifs <;> simp [*]
  by_cases hassistant : back.role = Role.assistant
  · obtain ⟨hback, hmsg⟩ := hcalls hassistant
    simp [Summarised, Message.isTool, Message.isAssistant, hcontent, hback, hmsg, hassistant,
      ← hrole]
  · have hassistant' : msg.role ≠ Role.assistant := hrole ▸ hassistant
    simp [Summarised, Message.isTool, Message.isAssistant, htool, htool', hassistant, hassistant']

theorem afterQuery_merge {back msg : Message} (h : canMerge back msg = true)
    (seen : Option Bool) :
    afterQuery seen { back with content := mergeMessageContent back.content msg.content } =
      afterQuery (afterQuery seen back) msg := by
  have hrole := ((canMerge_iff back msg).mp h).1
  unfold afterQuery
  by_cases huser : back.isUser
  · rw [if_pos huser, if_pos huser, if_pos (hrole.symm.trans huser)]
  · rw [if_neg huser, if_neg huser, if_neg fun hmsg => huser (hrole.trans hmsg), Option.map_map]
    congr 1
    funext b
    simp [summarised_of_merge h, Bool.or_assoc]

/-- The merge pass does not change what stands behind the latest user message. -/
theorem mergeInto_afterQuery (back : Message) (rest : List Message) (seen : Option Bool) :
    (mergeInto back rest).foldl afterQuery seen = (back :: rest).foldl afterQuery seen := by
  induction rest generalizing back seen with
  | nil => rfl
  | cons msg rest ih =>
      unfold mergeInto
      split
      · rename_i hmerge
        rw [ih, List.foldl_cons, List.foldl_cons, List.foldl_cons, afterQuery_merge hmerge]
      · rw [List.foldl_cons, ih]
        rfl

theorem leftover_sanitize (messages : List Message) :
    Leftover (sanitize messages) ↔ Leftover messages := by
  rw [leftover_iff, leftover_iff]
  cases messages with
  | nil => rfl
  | cons msg rest => rw [sanitize, mergeInto_afterQuery]

end JiuwenCore.CheckedWindow
