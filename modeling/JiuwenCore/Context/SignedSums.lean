import JiuwenCore.Context.Charge
import JiuwenCore.Context.Ranges

/-!
# Sums of tokens

Below `2 ^ 31` bytes no sum of token counts leaves the `int`s, and the window is the one of the
exact numbers, up to the erasure at its front.
-/

namespace JiuwenCore.CheckedWindow

open ContextEngine hiding calculateMessageTokens calculateMessagesTokens closeSegment segmentsFrom
  buildMessageSegments truncateSummary compressSegment admitSegments truncateFront
  applyContextLimits

theorem ok_bind {α β : Type} (v : α) (f : α → Checks β) : (Except.ok v >>= f) = f v := rfl

theorem signed_of {n : Int} (h : -2 ^ 31 ≤ n ∧ n < 2 ^ 31) : signed n = .ok n := by
  rw [signed, Checked.checked_of_inRange ⟨h.1, by omega⟩]
  rfl

theorem signed_add {m n : Nat} (h : m + n < 2 ^ 31) :
    signed ((m : Int) + n) = .ok ((m + n : Nat) : Int) := by
  rw [signed_of (by omega), Int.natCast_add]

theorem estimate_of_lt {text : Str} (h : estimateTokens text < 2 ^ 31) :
    estimate text = estimateTokens text := toInt_of_lt h

/-- A loop that adds what every turn costs. -/
theorem foldlM_signed {α : Type} {step : Int → α → Checks Int} {cost : α → Nat}
    (hstep : ∀ (total : Nat) (a : α), total + cost a < 2 ^ 31 →
      step total a = .ok ((total + cost a : Nat) : Int))
    (l : List α) {total : Nat} (h : total + (l.map cost).sum < 2 ^ 31) :
    l.foldlM step (total : Int) = .ok ((total + (l.map cost).sum : Nat) : Int) := by
  induction l generalizing total with
  | nil => rfl
  | cons a l ih =>
      rw [List.map_cons, List.sum_cons, ← Nat.add_assoc] at h ⊢
      rw [List.foldlM_cons, hstep total a (by omega), ok_bind, ih h]

theorem addCallTokens_signed (total : Nat) (tc : ToolCall)
    (h : total + (estimateTokens tc.name + estimateTokens tc.argumentsJson) < 2 ^ 31) :
    addCallTokens signed total tc =
      .ok ((total + (estimateTokens tc.name + estimateTokens tc.argumentsJson) : Nat) : Int) := by
  rw [addCallTokens, estimate_of_lt (by omega), estimate_of_lt (by omega),
    signed_add (by omega), ok_bind, signed_add h]

theorem calculateMessageTokens_signed {msg : Message}
    (h : ContextEngine.calculateMessageTokens msg < 2 ^ 31) :
    calculateMessageTokens signed msg =
      .ok (ContextEngine.calculateMessageTokens msg : Int) := by
  unfold ContextEngine.calculateMessageTokens at h ⊢
  rw [calculateMessageTokens, estimate_of_lt (by omega), estimate_of_lt (by omega),
    estimate_of_lt (by omega), estimate_of_lt (by omega), estimate_of_lt (by omega),
    signed_add (by omega), ok_bind, foldlM_signed addCallTokens_signed _ (by omega), ok_bind,
    signed_add (by omega), ok_bind, signed_add (by omega), ok_bind, signed_add h]

theorem addMessageTokens_signed (total : Nat) (msg : Message)
    (h : total + ContextEngine.calculateMessageTokens msg < 2 ^ 31) :
    addMessageTokens signed total msg =
      .ok ((total + ContextEngine.calculateMessageTokens msg : Nat) : Int) := by
  rw [addMessageTokens, calculateMessageTokens_signed (by omega), ok_bind, signed_add h]

theorem calculateMessagesTokens_signed {messages : List Message}
    (h : ContextEngine.calculateMessagesTokens messages < 2 ^ 31) :
    calculateMessagesTokens signed messages =
      .ok (ContextEngine.calculateMessagesTokens messages : Int) := by
  rw [← Nat.zero_add (ContextEngine.calculateMessagesTokens messages)] at h ⊢
  exact foldlM_signed addMessageTokens_signed messages h

/-! ## The walk -/

/-- What may be charged for a history. -/
def chargeLimit : Nat := 3 * 2 ^ 31

theorem tokens_lt_of_charge {messages : List Message}
    (h : messagesCharge messages ≤ chargeLimit + summaryAllowance) :
    ContextEngine.calculateMessagesTokens messages < 2 ^ 31 := by
  have hcharge := calculateMessagesTokens_charge messages
  simp only [chargeLimit, summaryAllowance] at h
  omega

theorem buildMessageSegments_signed {messages : List Message}
    (h : messagesCharge messages ≤ chargeLimit) :
    buildMessageSegments signed messages =
      .ok (ContextEngine.buildMessageSegments messages) := by
  refine (buildMessageSegments_ends fun part hpart => ?_).ok_of
  have hcharge := messagesCharge_sublist hpart
  rw [calculateMessagesTokens_signed (tokens_lt_of_charge (by omega))]
  trivial

theorem truncateSummary_signed {kept : List Message} {tokenBudget : Int} (summary : Message)
    (hkept : ContextEngine.calculateMessagesTokens kept < 2 ^ 31) (hb : 0 < tokenBudget)
    (hmax : tokenBudget < 2 ^ 31) :
    truncateSummary signed kept summary tokenBudget =
      .ok (ContextEngine.truncateSummary kept summary tokenBudget) := by
  rw [truncateSummary, calculateMessagesTokens_signed hkept, ok_bind,
    signed_of (by omega), ok_bind]
  rfl

theorem compressSegment_signed (config : ContextConfig) {messages : List Message}
    {segment : MessageSegment} {tokenBudget : Int} (hb : 0 < tokenBudget)
    (hmax : tokenBudget < 2 ^ 31)
    (hrange : segment.start < segment.stop ∧ segment.stop ≤ messages.length)
    (hcharge : messagesCharge (segment.slice messages) ≤ chargeLimit)
    (hlength : messages.length < 2 ^ 31) :
    compressSegment signed config messages segment tokenBudget =
      .ok (ContextEngine.compressSegment config messages segment tokenBudget) := by
  have hslice : (segment.slice messages).length < 2 ^ 31 :=
    Nat.lt_of_le_of_lt (slice_sublist messages segment.start segment.stop).length_le hlength
  have hsummary := summary_charge (segment.slice messages)
  have hopening := opening_tools_charge (segment.slice messages)
  have hnot : ¬(segment.start ≥ segment.stop ∨ segment.stop > messages.length ∨
      tokenBudget ≤ 0) := by omega
  rw [compressSegment, ContextEngine.compressSegment, if_neg hnot, if_neg hnot,
    range_of (Nat.le_of_lt hrange.1) hrange.2, ok_bind, ← MessageSegment.slice,
    calculateMessagesTokens_signed (tokens_lt_of_charge (by omega)), ok_bind,
    toInt_of_lt hslice]
  dsimp only
  split
  · rfl
  · split
    · rw [calculateMessagesTokens_signed (tokens_lt_of_charge (by
        rw [summaryMessage] at hsummary
        omega)), ok_bind]
      split
      · rw [truncateSummary_signed _ (tokens_lt_of_charge (by omega)) hb hmax]
        rfl
      · rfl
    · rfl

theorem admitSegments_signed (config : ContextConfig) {sanitized : List Message} (total : Nat)
    (segments : List MessageSegment)
    (hrange : ∀ s ∈ segments, s.start < s.stop ∧ s.stop ≤ sanitized.length)
    (hcharge : 4 * total + (segments.map fun s => messagesCharge (s.slice sanitized)).sum ≤
      chargeLimit)
    (htotal : total = 0 ∨ (total : Int) ≤ config.maxContextTokens.toInt)
    (hlength : sanitized.length < 2 ^ 31) :
    ∃ selected, admitSegments signed config sanitized total segments = .ok selected ∧
      selected.reverse.flatten =
        compressBoundary config sanitized
            (ContextEngine.admitSegments config sanitized total segments) ++
          (ContextEngine.admitSegments config sanitized total segments).newest sanitized := by
  induction segments generalizing total with
  | nil => exact ⟨[], rfl, rfl⟩
  | cons segment older ih =>
      have hsegment := hrange segment List.mem_cons_self
      have hlt := Int32.toInt_lt config.maxContextTokens
      have hge := Int32.le_toInt config.maxContextTokens
      rw [List.map_cons, List.sum_cons] at hcharge
      have htokens := calculateMessagesTokens_charge (segment.slice sanitized)
      have hslice : (segment.slice sanitized).length < 2 ^ 31 :=
        Nat.lt_of_le_of_lt (slice_sublist sanitized segment.start segment.stop).length_le hlength
      have hlimit : chargeLimit = 3 * 2 ^ 31 := rfl
      rw [admitSegments, range_of (Nat.le_of_lt hsegment.1) hsegment.2, ok_bind,
        ← MessageSegment.slice, calculateMessagesTokens_signed (by omega), ok_bind,
        signed_add (by omega), ok_bind, toInt_of_lt hslice, ContextEngine.admitSegments]
      dsimp only
      by_cases hfits : ((segment.slice sanitized).length : Int) ≤ config.maxMessages.toInt ∧
          ((total + ContextEngine.calculateMessagesTokens (segment.slice sanitized) : Nat) : Int) ≤
            config.maxContextTokens.toInt
      · obtain ⟨selected, hselected, hflatten⟩ := ih
          (total + ContextEngine.calculateMessagesTokens (segment.slice sanitized))
          (fun s hs => hrange s (List.mem_cons_of_mem segment hs)) (by omega) (.inr hfits.2)
        rw [if_pos hfits, if_pos (by simpa using hfits), hselected, ok_bind]
        refine ⟨_, rfl, ?_⟩
        rw [List.reverse_cons, List.flatten_append, hflatten]
        simp [Selection.newest, compressBoundary]
      · rw [if_neg hfits, if_neg (by simpa using hfits), signed_of (by omega), ok_bind,
          compressSegment_signed config (by omega) (by omega) hsegment (by omega) hlength,
          ok_bind]
        have hcompressed := compressSegment_charge config sanitized segment
          (max (config.maxContextTokens.toInt - total) 1)
        have hcost := calculateMessagesTokens_charge (ContextEngine.compressSegment config
          sanitized segment (max (config.maxContextTokens.toInt - total) 1))
        have hallowance : summaryAllowance = 9100 := rfl
        split
        · rw [calculateMessagesTokens_signed (by omega), ok_bind, signed_add (by omega), ok_bind]
          exact ⟨_, rfl, by simp [Selection.newest, compressBoundary]⟩
        · rename_i hnil
          rw [not_not] at hnil
          exact ⟨_, rfl, by simp [Selection.newest, compressBoundary, hnil]⟩

end JiuwenCore.CheckedWindow
