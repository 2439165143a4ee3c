import Mathlib.Algebra.BigOperators.Ring.List
import JiuwenCore.Context.Reduction

/-!
# Tokens against bytes

Four tokens are never charged for fewer than four thirds of a byte each: an ASCII byte costs a
quarter of a token, any other byte at most three quarters. The bound adds up over texts, merges
and summaries, where the estimate itself does not.
-/

namespace JiuwenCore.ContextEngine

/-! ## Texts -/

/-- The most a byte adds to four times the estimate. -/
def byteCharge (c : UInt8) : Nat := if c < 0x80 then 1 else 3

def charge (text : Str) : Nat := (text.map byteCharge).sum

@[simp] theorem charge_nil : charge [] = 0 := rfl

@[simp] theorem charge_cons (c : UInt8) (text : Str) :
    charge (c :: text) = byteCharge c + charge text := by
  simp [charge]

@[simp] theorem charge_append (left right : Str) :
    charge (left ++ right) = charge left + charge right := by
  simp [charge]

theorem charge_le (text : Str) : charge text ≤ 3 * text.length := by
  induction text with
  | nil => exact Nat.le_refl 0
  | cons c text ih =>
      have hbyte : byteCharge c ≤ 3 := by
        unfold byteCharge
        split <;> decide
      rw [charge_cons, List.length_cons]
      omega

theorem charge_take (n : Nat) (text : Str) : charge (text.take n) ≤ charge text := by
  conv_rhs => rw [← List.take_append_drop n text, charge_append]
  omega

/-- A preview of `n` bytes. -/
theorem charge_preview (n : Nat) (text : Str) : charge (text.take n) ≤ 3 * n := by
  have hcharge := charge_le (text.take n)
  rw [List.length_take] at hcharge
  omega

theorem countChars_charge (skip ascii wide : Nat) (text : Str) :
    (countChars skip ascii wide text).1 + 3 * (countChars skip ascii wide text).2 ≤
      ascii + 3 * wide + charge text := by
  induction text generalizing skip ascii wide with
  | nil => cases skip <;> simp [countChars]
  | cons c text ih =>
      rw [charge_cons]
      cases skip with
      | succ skip =>
          have hrest := ih skip ascii wide
          rw [countChars]
          omega
      | zero =>
          rw [countChars]
          by_cases hascii : c < 0x80
          · have hrest := ih 0 (ascii + 1) wide
            rw [if_pos hascii, byteCharge, if_pos hascii]
            omega
          · have hrest := fun skip => ih skip ascii (wide + 1)
            rw [if_neg hascii, byteCharge, if_neg hascii]
            split_ifs
            · have := hrest 1; omega
            · have := hrest 2; omega
            · have := hrest 3; omega
            · have := hrest 0; omega

theorem estimateTokens_charge (text : Str) : 4 * estimateTokens text ≤ charge text := by
  have hcount := countChars_charge 0 0 0 text
  rw [estimateTokens]
  dsimp only
  omega

/-! ## Messages -/

def messageCharge (m : Message) : Nat :=
  charge m.role + charge m.content +
    (m.toolCalls.map fun tc => charge tc.name + charge tc.argumentsJson).sum +
    (charge m.toolCallId + charge m.toolName + charge m.payloadRef)

def messagesCharge (messages : List Message) : Nat := (messages.map messageCharge).sum

@[simp] theorem messagesCharge_nil : messagesCharge [] = 0 := rfl

@[simp] theorem messagesCharge_cons (m : Message) (l : List Message) :
    messagesCharge (m :: l) = messageCharge m + messagesCharge l := by
  simp [messagesCharge]

@[simp] theorem messagesCharge_append (l l' : List Message) :
    messagesCharge (l ++ l') = messagesCharge l + messagesCharge l' := by
  simp [messagesCharge]

theorem messagesCharge_sublist {l l' : List Message} (h : l.Sublist l') :
    messagesCharge l ≤ messagesCharge l' :=
  List.Sublist.sum_le_sum (h.map messageCharge) fun _ _ => Nat.zero_le _

theorem calculateMessageTokens_charge (m : Message) :
    4 * calculateMessageTokens m ≤ messageCharge m := by
  have hcalls : 4 * (m.toolCalls.map fun tc =>
      estimateTokens tc.name + estimateTokens tc.argumentsJson).sum ≤
      (m.toolCalls.map fun tc => charge tc.name + charge tc.argumentsJson).sum := by
    rw [← List.sum_map_mul_left]
    refine List.sum_le_sum fun tc _ => ?_
    have hname := estimateTokens_charge tc.name
    have harguments := estimateTokens_charge tc.argumentsJson
    omega
  have hrole := estimateTokens_charge m.role
  have hcontent := estimateTokens_charge m.content
  have hcallId := estimateTokens_charge m.toolCallId
  have htoolName := estimateTokens_charge m.toolName
  have hpayload := estimateTokens_charge m.payloadRef
  rw [calculateMessageTokens, messageCharge]
  omega

theorem calculateMessagesTokens_charge (messages : List Message) :
    4 * calculateMessagesTokens messages ≤ messagesCharge messages := by
  induction messages with
  | nil => exact Nat.le_refl 0
  | cons m messages ih =>
      have hm := calculateMessageTokens_charge m
      rw [calculateMessagesTokens_cons, messagesCharge_cons]
      omega

/-- The bytes that tokens are counted for. -/
def messageBytes (m : Message) : Nat :=
  m.role.length + m.content.length +
    (m.toolCalls.map fun tc => tc.name.length + tc.argumentsJson.length).sum +
    (m.toolCallId.length + m.toolName.length + m.payloadRef.length)

def historyBytes (messages : List Message) : Nat := (messages.map messageBytes).sum

@[simp] theorem historyBytes_cons (m : Message) (l : List Message) :
    historyBytes (m :: l) = messageBytes m + historyBytes l := by
  simp [historyBytes]

theorem messageCharge_le (m : Message) : messageCharge m ≤ 3 * messageBytes m := by
  have hcalls : (m.toolCalls.map fun tc => charge tc.name + charge tc.argumentsJson).sum ≤
      3 * (m.toolCalls.map fun tc => tc.name.length + tc.argumentsJson.length).sum := by
    rw [← List.sum_map_mul_left]
    refine List.sum_le_sum fun tc _ => ?_
    have hname := charge_le tc.name
    have harguments := charge_le tc.argumentsJson
    omega
  have hrole := charge_le m.role
  have hcontent := charge_le m.content
  have hcallId := charge_le m.toolCallId
  have htoolName := charge_le m.toolName
  have hpayload := charge_le m.payloadRef
  rw [messageCharge, messageBytes]
  omega

/-! ## Merging -/

theorem charge_mergeMessageContent (left right : Str) :
    charge (mergeMessageContent left right) ≤ charge left + 2 + charge right := by
  have hfeeds : charge (lit "\n\n") = 2 := by decide
  unfold mergeMessageContent
  split_ifs
  · omega
  · omega
  · rw [charge_append, charge_append]
    omega

/-- The role of a message that is merged away pays for the line feeds. -/
theorem mergeInto_charge (back : Message) {rest : List Message} (h : ∀ m ∈ rest, m.role ≠ []) :
    messagesCharge (mergeInto back rest) ≤ messageCharge back + 3 * historyBytes rest := by
  induction rest generalizing back with
  | nil => simp [mergeInto]
  | cons msg rest ih =>
      have hrest := fun back => ih back fun m hm => h m (List.mem_cons_of_mem msg hm)
      rw [historyBytes_cons]
      unfold mergeInto
      split
      · have hmerged := hrest
          { back with content := mergeMessageContent back.content msg.content }
        have hcontent := charge_mergeMessageContent back.content msg.content
        have hright := charge_le msg.content
        have hrole := List.length_pos_iff.mpr (h msg List.mem_cons_self)
        have hbytes : msg.role.length + msg.content.length ≤ messageBytes msg := by
          rw [messageBytes]
          omega
        have hback : messageCharge
              { back with content := mergeMessageContent back.content msg.content } +
            charge back.content = messageCharge back + charge (mergeMessageContent back.content msg.content) := by
          simp only [messageCharge]
          omega
        omega
      · have hmsg := messageCharge_le msg
        have hmerged := hrest msg
        rw [messagesCharge_cons]
        omega

theorem sanitize_charge {messages : List Message} (h : ∀ m ∈ messages, m.role ≠ []) :
    messagesCharge (sanitize messages) ≤ 3 * historyBytes messages := by
  cases messages with
  | nil => exact Nat.le_refl 0
  | cons msg rest =>
      have hmerged := mergeInto_charge msg fun m hm => h m (List.mem_cons_of_mem msg hm)
      have hmsg := messageCharge_le msg
      rw [sanitize, historyBytes_cons]
      omega

/-- A message takes a byte at least, for its role. -/
theorem length_le_historyBytes {messages : List Message} (h : ∀ m ∈ messages, m.role ≠ []) :
    messages.length ≤ historyBytes messages := by
  induction messages with
  | nil => exact Nat.le_refl 0
  | cons m messages ih =>
      have hrest := ih fun x hx => h x (List.mem_cons_of_mem m hx)
      have hrole := List.length_pos_iff.mpr (h m List.mem_cons_self)
      rw [historyBytes_cons, List.length_cons, messageBytes]
      omega

/-! ## Summaries -/

/-- The line of a tool message repeats its tool and its payload. -/
theorem toolSummary_charge (m : Message) :
    charge (toolSummary m) ≤ charge m.toolName + charge m.payloadRef + 750 := by
  have hpreview := charge_preview 240 m.content
  have hdash : charge (lit "- ") = 2 := by decide
  have htool : charge (lit "tool") = 4 := by decide
  have hpayload : charge (lit " payload_ref=") = 13 := by decide
  have hcolon : charge (lit ": ") = 2 := by decide
  have hdots : charge (lit "...") = 3 := by decide
  unfold toolSummary
  dsimp only
  split_ifs <;> simp only [charge_append] <;> omega

theorem collectSummary_tools (l : List Message) (acc : List Str × Str) :
    (l.foldl collectSummary acc).1 =
      acc.1 ++ (l.filter fun m => decide m.isTool).map toolSummary := by
  induction l generalizing acc with
  | nil => simp
  | cons m l ih =>
      rw [List.foldl_cons, ih]
      unfold collectSummary
      by_cases htool : m.isTool
      · rw [if_pos htool, List.filter_cons_of_pos (by simpa using htool)]
        simp
      · rw [if_neg htool, List.filter_cons_of_neg (by simpa using htool)]
        split_ifs <;> rfl

theorem tools_charge (tools : List Message) :
    ((tools.map toolSummary).map fun item => charge item + 1).sum ≤
      messagesCharge tools + 751 * tools.length := by
  induction tools with
  | nil => exact Nat.le_refl 0
  | cons m tools ih =>
      have hline := toolSummary_charge m
      have hm : charge m.toolName + charge m.payloadRef ≤ messageCharge m := by
        rw [messageCharge]
        omega
      simp only [List.map_cons, List.sum_cons, messagesCharge_cons, List.length_cons]
      omega

theorem lines_charge (items : List Str) :
    charge (items.flatMap fun item => lit "\n" ++ item) =
      (items.map fun item => charge item + 1).sum := by
  have hfeed : charge (lit "\n") = 1 := by decide
  induction items with
  | nil => rfl
  | cons item items ih =>
      rw [List.flatMap_cons, charge_append, charge_append, ih, List.map_cons, List.sum_cons]
      omega

theorem summaryContent_charge (toolSummaries : List Str) (last : Str) :
    charge (summaryContent toolSummaries last) ≤
      ((toolSummaries.take 8).map fun item => charge item + 1).sum + 3000 := by
  have hpreview := charge_preview 800 last
  have hhead : charge (lit "Context segment compressed due to context window limits.") = 56 := by
    decide
  have htools : charge (lit "\n\nTool results summary:") = 23 := by decide
  have hmore : charge (lit "\n- ...") = 6 := by decide
  have hlast : charge (lit "\n\nLatest assistant state:\n") = 26 := by decide
  have hdots : charge (lit "...") = 3 := by decide
  unfold summaryContent
  dsimp only
  split_ifs <;> simp only [charge_append, lines_charge, hhead] <;> omega

/-- The opening user message is none of the tool messages. -/
theorem opening_tools_charge (l : List Message) :
    messagesCharge (openingUser l) + messagesCharge (l.filter fun m => decide m.isTool) ≤
      messagesCharge l := by
  cases l with
  | nil => exact Nat.le_refl 0
  | cons first rest =>
      rw [openingUser]
      split
      · rename_i huser
        have htool : ¬first.isTool := fun htool => Role.user_ne_tool (huser.symm.trans htool)
        have hrest := messagesCharge_sublist
          (List.filter_sublist (p := fun m : Message => decide m.isTool) (l := rest))
        rw [List.filter_cons_of_neg (by simpa using htool), messagesCharge_cons,
          messagesCharge_cons, messagesCharge_nil]
        omega
      · rw [messagesCharge_nil, Nat.zero_add]
        exact messagesCharge_sublist List.filter_sublist

/-- What a compressed segment may cost beyond what it stands for. -/
def summaryAllowance : Nat := 9100

/-- The summary of a segment, with the opening user message and room for the marker. -/
theorem summary_charge (l : List Message) :
    messagesCharge (openingUser l ++ [summaryMessage
        (summaryContent (l.foldl collectSummary ([], [])).1 (l.foldl collectSummary ([], [])).2)]) +
      12 ≤ messagesCharge l + summaryAllowance := by
  have hrole : charge Role.assistant = 9 := by decide
  have hsummary := summaryContent_charge (l.foldl collectSummary ([], [])).1
    (l.foldl collectSummary ([], [])).2
  have htools : ((((l.foldl collectSummary ([], [])).1).take 8).map fun item =>
      charge item + 1).sum ≤ messagesCharge (l.filter fun m => decide m.isTool) + 751 * 8 := by
    have hbound := tools_charge ((l.filter fun m => decide m.isTool).take 8)
    have hsub := messagesCharge_sublist
      (List.take_sublist 8 (l.filter fun m => decide m.isTool))
    have hlength := List.length_take_le 8 (l.filter fun m => decide m.isTool)
    rw [collectSummary_tools, List.nil_append, ← List.map_take]
    omega
  have hopening := opening_tools_charge l
  rw [messagesCharge_append, messagesCharge_cons, messagesCharge_nil]
  simp only [messageCharge, summaryMessage, charge_nil, List.map_nil, List.sum_nil,
    summaryAllowance]
  omega

theorem halveToFit_charge (budget : Int) (fuel : Nat) (content : Str) :
    charge (halveToFit budget fuel content) ≤ charge content := by
  induction fuel generalizing content with
  | zero => exact Nat.le_refl _
  | succ fuel ih =>
      unfold halveToFit
      split
      · exact Nat.le_trans (ih _) (charge_take _ content)
      · exact Nat.le_refl _

/-- A summary that is cut down costs no more, if it is not the marker. -/
theorem truncateSummary_charge (kept : List Message) (summary : Message) (tokenBudget : Int) :
    messageCharge (truncateSummary kept summary tokenBudget) ≤ messageCharge summary + 12 := by
  have hmarker : charge (lit "[compressed]") = 12 := by decide
  have hhalved := halveToFit_charge (max 1 (tokenBudget - calculateMessagesTokens kept))
    summary.content.length summary.content
  unfold truncateSummary messageCharge
  dsimp only
  by_cases hnil : halveToFit (max 1 (tokenBudget - calculateMessagesTokens kept))
      summary.content.length summary.content = []
  · rw [if_pos hnil]
    omega
  · rw [if_neg hnil]
    omega

/-- The compression of a segment. -/
theorem compressSegment_charge (config : ContextConfig) (messages : List Message)
    (segment : MessageSegment) (tokenBudget : Int) :
    messagesCharge (compressSegment config messages segment tokenBudget) ≤
      messagesCharge (segment.slice messages) + summaryAllowance := by
  have hopening := opening_tools_charge (segment.slice messages)
  have hsummary := summary_charge (segment.slice messages)
  rw [messagesCharge_append, messagesCharge_cons, messagesCharge_nil] at hsummary
  have hallowance : summaryAllowance = 9100 := rfl
  unfold compressSegment
  split
  · exact Nat.zero_le _
  · dsimp only
    split
    · exact Nat.le_add_right _ _
    · split
      · split
        · have hcut := truncateSummary_charge (openingUser (segment.slice messages))
            (summaryMessage (summaryContent
              ((segment.slice messages).foldl collectSummary ([], [])).1
              ((segment.slice messages).foldl collectSummary ([], [])).2)) tokenBudget
          rw [messagesCharge_append, messagesCharge_cons, messagesCharge_nil]
          simp only [summaryMessage] at hcut hsummary
          omega
        · rw [messagesCharge_append, messagesCharge_cons, messagesCharge_nil]
          simp only [summaryMessage] at hsummary
          omega
      · omega

/-- The messages that are selected, before the truncation. -/
theorem selectMessages_charge (config : ContextConfig) (sanitized : List Message) :
    messagesCharge (selectMessages config sanitized) ≤
      messagesCharge sanitized + summaryAllowance :=
  selectMessages_measure messagesCharge_nil messagesCharge_append
    fun segment tokenBudget => compressSegment_charge config sanitized segment tokenBudget

end JiuwenCore.ContextEngine
