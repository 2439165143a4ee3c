import JiuwenCore.Context.CheckedWindow
import JiuwenCore.Context.Reduction
import JiuwenCore.Lib.Ends

/-!
# Iterators of the window

The segments lie inside their vector, whatever the sums come to. The only range that depends on
the configuration is the one that is erased at the front.
-/

namespace JiuwenCore.CheckedWindow

open ContextEngine hiding calculateMessageTokens calculateMessagesTokens closeSegment segmentsFrom
  buildMessageSegments truncateSummary compressSegment admitSegments truncateFront
  applyContextLimits

/-! ## Casts -/

theorem toInt_of_lt {n : Nat} (h : n < 2 ^ 31) : toInt n = n := by
  unfold toInt
  omega

theorem toInt_le (n : Nat) : toInt n ≤ n := by
  unfold toInt
  omega

theorem range_of {messages : List Message} {start stop : Nat} (hle : start ≤ stop)
    (hstop : stop ≤ messages.length) :
    range messages start stop = .ok (slice messages start stop) := if_pos ⟨hle, hstop⟩

theorem slice_sublist (messages : List Message) (start stop : Nat) :
    (slice messages start stop).Sublist messages :=
  (List.take_sublist _ _).trans (List.drop_sublist _ _)

/-! ## What does not depend on the sums -/

section Sums

variable {sum : Int → Checks Int} {exc : Fault → Prop}
variable (hsum : ∀ n, Ends (sum n) (fun _ => True) exc)

include hsum

theorem addCallTokens_ends (total : Int) (tc : ToolCall) :
    Ends (addCallTokens sum total tc) (fun _ => True) exc :=
  (hsum _).bind fun _ _ => hsum _

theorem calculateMessageTokens_ends (msg : Message) :
    Ends (calculateMessageTokens sum msg) (fun _ => True) exc := by
  refine (hsum _).bind fun _ _ => ?_
  refine (Ends.foldlM (fun total tc _ => addCallTokens_ends hsum total tc) _ trivial).bind
    fun _ _ => ?_
  exact (hsum _).bind fun _ _ => (hsum _).bind fun _ _ => hsum _

theorem calculateMessagesTokens_ends (messages : List Message) :
    Ends (calculateMessagesTokens sum messages) (fun _ => True) exc := by
  refine Ends.foldlM (fun total msg _ => ?_) messages trivial
  exact (calculateMessageTokens_ends hsum msg).bind fun _ _ => hsum _

theorem truncateSummary_ends (kept : List Message) (content : Str) (tokenBudget : Int) :
    Ends (truncateSummary sum kept (summaryMessage content) tokenBudget)
      (fun summary => ∃ content, summary = summaryMessage content) exc := by
  refine (calculateMessagesTokens_ends hsum kept).bind fun _ _ => ?_
  exact (hsum _).bind fun _ _ => ⟨_, rfl⟩

end Sums

section Segments

variable {sum : Int → Checks Int} {exc : Fault → Prop} {messages : List Message}
variable (hcount : ∀ part : List Message, part.Sublist messages →
  Ends (calculateMessagesTokens sum part) (fun _ => True) exc)

include hcount

theorem closeSegment_ends {start stop : Nat} (hle : start ≤ stop)
    (hstop : stop ≤ messages.length) :
    Ends (closeSegment sum messages start stop)
      (· = ContextEngine.closeSegment messages start stop) exc := by
  rw [closeSegment, range_of hle hstop]
  exact (hcount _ (slice_sublist messages start stop)).bind fun _ _ => rfl

theorem segmentsFrom_ends (start i : Nat) (rest : List Message) (hrest : messages.drop i = rest)
    (hle : start ≤ i) (hi : i ≤ messages.length) :
    Ends (segmentsFrom sum messages start i rest)
      (· = ContextEngine.segmentsFrom messages start i rest) exc := by
  induction rest generalizing start i with
  | nil =>
      have hlast := closeSegment_ends hcount (Nat.le_trans hle hi) (Nat.le_refl _)
      refine hlast.bind fun segment hsegment => ?_
      rw [hsegment]
      rfl
  | cons msg rest ih =>
      obtain ⟨hlt, hdrop⟩ := drop_cons hrest
      unfold segmentsFrom ContextEngine.segmentsFrom
      split
      · refine (closeSegment_ends hcount hle hi).bind fun segment hsegment => ?_
        refine (ih i (i + 1) hdrop (Nat.le_succ i) hlt).bind fun later hlater => ?_
        rw [hsegment, hlater]
        rfl
      · exact ih start (i + 1) hdrop (by omega) hlt

theorem buildMessageSegments_ends :
    Ends (buildMessageSegments sum messages)
      (· = ContextEngine.buildMessageSegments messages) exc := by
  cases messages with
  | nil => exact rfl
  | cons first rest => exact segmentsFrom_ends hcount 0 1 rest rfl (by omega) (by simp)

end Segments

/-- What the compression makes of the messages of a segment. -/
inductive Compressed (config : ContextConfig) (part : List Message) : List Message → Prop where
  | whole (h : toInt part.length ≤ config.maxMessages.toInt) : Compressed config part part
  | opening (h : ∀ m ∈ part, ¬Summarised m) : Compressed config part (openingUser part)
  | summary (content : Str) (h : ∃ m ∈ part, Summarised m) :
      Compressed config part (openingUser part ++ [summaryMessage content])

theorem summarised_of_collected {part : List Message}
    (h : (part.foldl collectSummary ([], [])).1 ≠ [] ∨
      (part.foldl collectSummary ([], [])).2 ≠ []) : ∃ m ∈ part, Summarised m := by
  by_contra hnone
  have hempty := (collectSummary_empty ([], []) part).mpr
    ⟨rfl, fun m hm hsummarised => hnone ⟨m, hm, hsummarised⟩⟩
  rw [hempty] at h
  simp at h

section Sums

variable {sum : Int → Checks Int} {exc : Fault → Prop}
variable (hsum : ∀ n, Ends (sum n) (fun _ => True) exc)

include hsum

theorem compressSegment_ends (config : ContextConfig) {messages : List Message}
    {segment : MessageSegment} {tokenBudget : Int} (hb : 0 < tokenBudget)
    (hrange : segment.start < segment.stop ∧ segment.stop ≤ messages.length) :
    Ends (compressSegment sum config messages segment tokenBudget)
      (Compressed config (segment.slice messages)) exc := by
  rw [compressSegment, if_neg (by omega), range_of (Nat.le_of_lt hrange.1) hrange.2]
  refine (calculateMessagesTokens_ends hsum _).bind fun tokens _ => ?_
  split
  · rename_i hfits
    exact .whole hfits.2
  · dsimp only
    split
    · rename_i hcollected
      have hsummarised := summarised_of_collected hcollected
      refine (calculateMessagesTokens_ends hsum _).bind fun total _ => ?_
      split
      · refine (truncateSummary_ends hsum _ _ _).bind fun summary hsummary => ?_
        obtain ⟨content, rfl⟩ := hsummary
        exact .summary content hsummarised
      · exact .summary _ hsummarised
    · rename_i hnone
      rw [not_or, not_not, not_not] at hnone
      exact .opening ((collectSummary_empty ([], []) _).mp (Prod.ext hnone.1 hnone.2)).2

end Sums

/-- What the walk selects: the newest segment and older ones before it, or what is left of the
newest one. -/
def Selected (config : ContextConfig) (sanitized : List Message) :
    List MessageSegment → List (List Message) → Prop
  | [], selected => selected = []
  | newest :: _, selected =>
      (∃ more, selected = newest.slice sanitized :: more ∧
        toInt (newest.slice sanitized).length ≤ config.maxMessages.toInt) ∨
      Compressed config (newest.slice sanitized) selected.reverse.flatten

section Sums

variable {sum : Int → Checks Int} {exc : Fault → Prop}
variable (hsum : ∀ n, Ends (sum n) (fun _ => True) exc)

include hsum

theorem admitSegments_ends (config : ContextConfig) (sanitized : List Message) (total : Int)
    (segments : List MessageSegment)
    (hrange : ∀ s ∈ segments, s.start < s.stop ∧ s.stop ≤ sanitized.length) :
    Ends (admitSegments sum config sanitized total segments)
      (Selected config sanitized segments) exc := by
  induction segments generalizing total with
  | nil => exact rfl
  | cons segment older ih =>
      have hsegment := hrange segment List.mem_cons_self
      rw [admitSegments, range_of (Nat.le_of_lt hsegment.1) hsegment.2]
      refine (calculateMessagesTokens_ends hsum _).bind fun tokens _ => ?_
      refine (hsum _).bind fun both _ => ?_
      split
      · rename_i hfits
        refine (ih both fun s hs => hrange s (List.mem_cons_of_mem segment hs)).bind
          fun selected _ => ?_
        exact .inl ⟨selected, rfl, hfits.1⟩
      · refine (hsum _).bind fun left _ => ?_
        refine (compressSegment_ends hsum config (by omega) hsegment).bind fun c hc => ?_
        split
        · refine (calculateMessagesTokens_ends hsum c).bind fun _ _ => (hsum _).bind fun _ _ => ?_
          right
          simpa using hc
        · rename_i hnil
          rw [not_not] at hnil
          right
          rw [hnil] at hc
          exact hc

end Sums

end JiuwenCore.CheckedWindow
