import JiuwenCore.JsonText
import JiuwenCore.Models.AnthropicEvents
import JiuwenCore.Models.OpenAIStream

/-!
# Retries

The loop of `Invoke`, which both models have: up to `1 + maxRetries` attempts, of which
only the first is given the callback. What an attempt has delivered stays delivered when
it is abandoned.
-/

namespace JiuwenCore.Models

/-- What the environment does in one round of the loop. -/
structure Attempt where
  /-- The answer of `shouldCancel` before the attempt. -/
  shouldCancel : Bool
  transfer : Transfer

/-- A response, and the texts the callback was called with on the way. -/
structure Delivery where
  response : ModelResponse
  delivered : List Str

/-- The loop from one attempt on, with `remaining` of them left. `SleepBackoff` and the
log lines are left out. -/
def invokeFrom (doInvokeOnce : OnChunk → Transfer → Delivery) (onChunk : OnChunk)
    (attempts : Nat → Attempt) (attempt : Nat) : Nat → Delivery
  | 0 =>
      { response :=
          { content := lit "Error: retry loop exhausted"
            finishReason := lit "error"
            isFinished := true }
        delivered := [] }
  | remaining + 1 =>
      if (attempts attempt).shouldCancel then
        { response := { finishReason := lit "cancelled", isFinished := true }, delivered := [] }
      else
        let isFinalAttempt := remaining = 0
        let out := doInvokeOnce (if attempt > 0 then none else onChunk) (attempts attempt).transfer
        if out.response.finishReason = lit "cancelled" then out
        else if out.response.isRetryable = false then out
        else if isFinalAttempt then out
        else
          let rest := invokeFrom doInvokeOnce onChunk attempts (attempt + 1) remaining
          { rest with delivered := out.delivered ++ rest.delivered }

/-- `Invoke`, where no attempt is made when the number of retries is negative. -/
def invoke (doInvokeOnce : OnChunk → Transfer → Delivery) (maxRetries : Int32) (onChunk : OnChunk)
    (attempts : Nat → Attempt) : Delivery :=
  let totalAttempts := 1 + maxRetries
  invokeFrom doInvokeOnce onChunk attempts 0 totalAttempts.toInt.toNat

/-! ## One attempt -/

/-- A transfer that fails in a way the loop tries again. -/
def Transfer.Retryable (transfer : Transfer) : Prop :=
  (∀ chunk ∈ transfer.chunks, chunk.2 = false) ∧
    if transfer.response.isCurlError then isRetryableCurlError transfer.response.curlCode = true
    else isRetryableHttpStatus transfer.response.statusCode = true

def ModelResponse.Successful (out : ModelResponse) : Prop :=
  out.finishReason ≠ lit "error" ∧ out.finishReason ≠ lit "cancelled"

/-- What the loop rests on in an attempt: `text` is what the transfer streams. -/
structure Attempts (doInvokeOnce : OnChunk → Transfer → Delivery) (text : Transfer → Str) :
    Prop where
  retryable_iff : ∀ onChunk transfer,
    (doInvokeOnce onChunk transfer).response.isRetryable = true ↔ transfer.Retryable
  retryable_error : ∀ onChunk transfer, transfer.Retryable →
    (doInvokeOnce onChunk transfer).response.finishReason = lit "error"
  content : ∀ onChunk transfer, (doInvokeOnce onChunk transfer).response.Successful →
    (doInvokeOnce onChunk transfer).response.content = text transfer
  delivered : ∀ onChunk transfer, (doInvokeOnce onChunk transfer).delivered.flatten =
    if onChunk.isSome then text transfer else []

theorem postStream_cancelled {σ : Type} (process : σ → Str → σ) (ctx : σ)
    (chunks : List (Str × Bool)) :
    (postStream process ctx chunks).2 = false ↔ ∀ chunk ∈ chunks, chunk.2 = false := by
  induction chunks generalizing ctx with
  | nil => simp [postStream]
  | cons chunk rest ih =>
      rcases chunk with ⟨data, shouldCancel⟩
      cases shouldCancel with
      | true => simp [postStream]
      | false => simpa [postStream] using ih (process ctx data)

section

variable {fullText : Str} {cancelled : Bool} {transfer : Transfer} {success : ModelResponse}

theorem respond_isRetryable (hsuccess : success.isRetryable = false)
    (hcancelled : cancelled = false ↔ ∀ chunk ∈ transfer.chunks, chunk.2 = false) :
    (respond fullText cancelled transfer.response success).isRetryable = true ↔
      transfer.Retryable := by
  unfold Transfer.Retryable
  rw [← hcancelled]
  unfold respond
  cases cancelled with
  | true => simp
  | false =>
      by_cases hcurl : transfer.response.isCurlError = true
      · simp [hcurl]
      · by_cases hstatus : transfer.response.statusCode ≥ 400
        · simp [hcurl, hstatus]
        · have hok : isRetryableHttpStatus transfer.response.statusCode = false := by
            simp only [isRetryableHttpStatus, Bool.or_eq_false_iff, decide_eq_false_iff_not]
            omega
          simp [hcurl, hstatus, hsuccess, hok]

theorem respond_error (hcancelled : cancelled = false ↔ ∀ chunk ∈ transfer.chunks, chunk.2 = false)
    (h : transfer.Retryable) :
    (respond fullText cancelled transfer.response success).finishReason = lit "error" := by
  have hnot := hcancelled.mpr h.1
  unfold respond
  rw [hnot, if_neg Bool.false_ne_true]
  by_cases hcurl : transfer.response.isCurlError = true
  · rw [if_pos hcurl]
  · have hretry := h.2
    rw [if_neg hcurl] at hretry
    have hstatus : transfer.response.statusCode ≥ 400 := by
      simp only [isRetryableHttpStatus, Bool.or_eq_true, decide_eq_true_eq] at hretry
      omega
    rw [if_neg hcurl, if_pos hstatus]

theorem respond_content (hcontent : success.content = fullText)
    (h : (respond fullText cancelled transfer.response success).Successful) :
    (respond fullText cancelled transfer.response success).content = fullText := by
  obtain ⟨herror, hcancelled⟩ := h
  unfold respond at herror hcancelled ⊢
  split
  · rfl
  · split
    · simp_all
    · split
      · simp_all
      · exact hcontent

end

/-! ## The loop -/

/-- The attempt whose response is returned: the first that is not tried again. -/
def AnsweredBy (attempts : Nat → Attempt) (k : Nat) : Prop :=
  (∀ j < k, (attempts j).transfer.Retryable) ∧ ¬ (attempts k).transfer.Retryable

theorem AnsweredBy.unique {attempts : Nat → Attempt} {k k' : Nat} (h : AnsweredBy attempts k)
    (h' : AnsweredBy attempts k') : k = k' := by
  rcases Nat.lt_trichotomy k k' with hlt | heq | hlt
  · exact absurd (h'.1 k hlt) h.2
  · exact heq
  · exact absurd (h.1 k' hlt) h'.2

section

variable {doInvokeOnce : OnChunk → Transfer → Delivery} {text : Transfer → Str}
  (honce : Attempts doInvokeOnce text)

include honce

/-- What a successful run returns and what it has delivered. -/
theorem invokeFrom_successful {onChunk : OnChunk} {attempts : Nat → Attempt}
    {attempt remaining : Nat}
    (h : (invokeFrom doInvokeOnce onChunk attempts attempt remaining).response.Successful) :
    ∃ k ≥ attempt, (∀ j, attempt ≤ j → j < k → (attempts j).transfer.Retryable) ∧
      ¬ (attempts k).transfer.Retryable ∧
      (invokeFrom doInvokeOnce onChunk attempts attempt remaining).response.content =
        text (attempts k).transfer ∧
      (invokeFrom doInvokeOnce onChunk attempts attempt remaining).delivered.flatten =
        if attempt = 0 ∧ onChunk.isSome then text (attempts 0).transfer else [] := by
  induction remaining generalizing attempt with
  | zero => exact absurd rfl h.1
  | succ remaining ih =>
      have hdelivered : (doInvokeOnce (if attempt > 0 then none else onChunk)
          (attempts attempt).transfer).delivered.flatten =
            if attempt = 0 ∧ onChunk.isSome then text (attempts 0).transfer else [] := by
        rw [honce.delivered]
        cases attempt with
        | zero => simp
        | succ attempt => simp
      unfold invokeFrom at h ⊢
      by_cases hcancel : (attempts attempt).shouldCancel = true
      · rw [if_pos hcancel] at h
        exact absurd rfl h.2
      rw [if_neg hcancel] at h ⊢
      simp only at h ⊢
      by_cases hretry : (attempts attempt).transfer.Retryable
      · have herror := honce.retryable_error (if attempt > 0 then none else onChunk) _ hretry
        have hflag := (honce.retryable_iff (if attempt > 0 then none else onChunk) _).mpr hretry
        have hnot : ¬ lit "error" = lit "cancelled" := by decide
        rw [herror, if_neg hnot, if_neg (by simp [hflag])] at h ⊢
        by_cases hfinal : remaining = 0
        · rw [if_pos hfinal] at h
          exact absurd herror h.1
        rw [if_neg hfinal] at h ⊢
        obtain ⟨k, hk, hbefore, hlast, hcontent, hrest⟩ := ih h
        rw [if_neg (by omega)] at hrest
        refine ⟨k, by omega, ?_, hlast, hcontent, ?_⟩
        · intro j hle hlt
          rcases Nat.eq_or_lt_of_le hle with rfl | hlt'
          · exact hretry
          · exact hbefore j hlt' hlt
        · rw [List.flatten_append, hrest, List.append_nil, hdelivered]
      · have hflag : (doInvokeOnce (if attempt > 0 then none else onChunk)
            (attempts attempt).transfer).response.isRetryable = false := by
          rw [← Bool.not_eq_true, honce.retryable_iff]
          exact hretry
        rw [hflag, if_pos rfl, ite_self] at h ⊢
        refine ⟨attempt, Nat.le_refl _, fun j hle hlt => absurd hle (by omega), hretry, ?_,
          hdelivered⟩
        exact honce.content _ _ h

/-- What was delivered begins the answer exactly when the text of the first attempt
begins the text of the attempt that answers. -/
theorem delivered_prefix_iff (maxRetries : Int32) (onChunk : OnChunk) (attempts : Nat → Attempt)
    (h : (invoke doInvokeOnce maxRetries onChunk attempts).response.Successful) :
    (invoke doInvokeOnce maxRetries onChunk attempts).delivered.flatten <+:
        (invoke doInvokeOnce maxRetries onChunk attempts).response.content ↔
      (onChunk.isSome → ∀ k, AnsweredBy attempts k →
        text (attempts 0).transfer <+: text (attempts k).transfer) := by
  obtain ⟨k, _, hbefore, hlast, hcontent, hdelivered⟩ := invokeFrom_successful honce h
  have hanswered : AnsweredBy attempts k := ⟨fun j hj => hbefore j (Nat.zero_le j) hj, hlast⟩
  rw [invoke, hcontent, hdelivered]
  cases onChunk with
  | none => simp
  | some throws =>
      simp only [Option.isSome_some, and_self, if_true, forall_const]
      constructor
      · intro hprefix k' hanswered'
        exact hanswered.unique hanswered' ▸ hprefix
      · intro hprefix
        exact hprefix k hanswered

end

/-! ## The text of a transfer -/

/-- The callback got the text that was read, in a run beside one without callback. -/
def Told (onChunk : OnChunk) (text text₀ : Str) (calls : List Str) : Prop :=
  text = text₀ ∧ calls.flatten = if onChunk.isSome then text else []

theorem Told.append {onChunk : OnChunk} {text text₀ : Str} {calls : List Str}
    (h : Told onChunk text text₀ calls) (more : Str) :
    Told onChunk (text ++ more) (text₀ ++ more)
      (if onChunk.isSome then calls ++ [more] else calls) := by
  obtain ⟨rfl, hcalls⟩ := h
  refine ⟨rfl, ?_⟩
  cases onChunk with
  | none => exact hcalls
  | some throws =>
      have hall : calls.flatten = text := hcalls
      simp [hall]

theorem emit_calls (onChunk : OnChunk) (calls : List Str) (text : Str) :
    (emit onChunk calls text).1 = if onChunk.isSome then calls ++ [text] else calls := by
  cases onChunk <;> rfl

/-- Over a whole transfer, whatever the callback does. -/
theorem postStream_told {σ : Type} {text : σ → Str} {calls : σ → List Str}
    {step : OnChunk → σ → Str → σ × Bool} {lineText : Str → Str}
    (hline : ∀ onChunk s text₀ line, Told onChunk (text s) text₀ (calls s) →
      Told onChunk (text (step onChunk s line).1) (text₀ ++ lineText line)
        (calls (step onChunk s line).1))
    (hstop : ∀ onChunk s s₀ line, (step onChunk s line).2 = (step none s₀ line).2)
    {init : σ} (htext : text init = []) (hcalls : calls init = []) (onChunk : OnChunk)
    (chunks : List (Str × Bool)) :
    Told onChunk (text (postStream (LineFeed.feed 10 (step onChunk)) (init, []) chunks).1.1)
      (text (postStream (LineFeed.feed 10 (step none)) (init, []) chunks).1.1)
      (calls (postStream (LineFeed.feed 10 (step onChunk)) (init, []) chunks).1.1) := by
  let R : σ → σ → Prop := fun s s₀ =>
    Told onChunk (text s) (text s₀) (calls s) ∧ Told none (text s₀) (text s₀) (calls s₀)
  have hstart : R init init := by
    have hnone : ∀ onChunk, Told onChunk (text init) (text init) (calls init) := by
      intro onChunk
      simp [Told, htext, hcalls]
    exact ⟨hnone onChunk, hnone none⟩
  have hstep : ∀ s s₀ line, R s s₀ →
      R (step onChunk s line).1 (step none s₀ line).1 ∧
        (step onChunk s line).2 = (step none s₀ line).2 := by
    intro s s₀ line h
    have htold := hline onChunk s (text s₀) line h.1
    have htold₀ := hline none s₀ (text s₀) line h.2
    rw [← htold₀.1] at htold
    exact ⟨⟨htold, rfl, htold₀.2⟩, hstop onChunk s s₀ line⟩
  have hchunk : ∀ (reader reader₀ : σ × Str) data,
      R reader.1 reader₀.1 ∧ reader.2 = reader₀.2 →
        R (LineFeed.feed 10 (step onChunk) reader data).1
            (LineFeed.feed 10 (step none) reader₀ data).1 ∧
          (LineFeed.feed 10 (step onChunk) reader data).2 =
            (LineFeed.feed 10 (step none) reader₀ data).2 := by
    rintro ⟨s, buffer⟩ ⟨s₀, buffer₀⟩ data ⟨hrel, hbuffer⟩
    obtain rfl : buffer = buffer₀ := hbuffer
    exact LineFeed.feed_simulates 10 _ hstep hrel buffer data
  have hall := postStream_simulates (s := (init, [])) (t := (init, [])) hchunk ⟨hstart, rfl⟩ chunks
  exact hall.1.1.1

end JiuwenCore.Models

namespace JiuwenCore.Models.OpenAI

/-- The text the choice of a line adds. -/
def choiceText (choice : Json) : Str :=
  match choice.member (lit "delta") with
  | none => []
  | some delta => (delta.stringMember (lit "content")).getD []

def lineText (lib : JsonLib) (line : Str) : Str :=
  if (lit "data: ").isPrefixOf line ∧ line.drop 6 ≠ lit "[DONE]" then
    ((readChoice lib (line.drop 6)).map choiceText).getD []
  else []

theorem handleContent_told {onChunk : OnChunk} {ctx : StreamContext} {text₀ : Str}
    (h : Told onChunk ctx.fullText text₀ ctx.onChunkCalls) (delta : Json) :
    Told onChunk (caught (handleContent onChunk ctx delta)).fullText
      (text₀ ++ (delta.stringMember (lit "content")).getD [])
      (caught (handleContent onChunk ctx delta)).onChunkCalls := by
  unfold handleContent
  cases hcontent : delta.stringMember (lit "content") with
  | none => simpa [caught] using h
  | some content =>
      by_cases hnil : content = []
      · simpa [hnil, caught] using h
      · simp only [hnil, if_false, Option.getD_some]
        have hmore := h.append content
        rw [← emit_calls] at hmore
        split <;> exact hmore

theorem handleToolCalls_keeps (lib : JsonLib) (ctx : StreamContext) (toolCalls : List Json) :
    (caught (handleToolCalls lib ctx toolCalls)).fullText = ctx.fullText ∧
      (caught (handleToolCalls lib ctx toolCalls)).onChunkCalls = ctx.onChunkCalls := by
  induction toolCalls generalizing ctx with
  | nil => exact ⟨rfl, rfl⟩
  | cons tc rest ih =>
      unfold handleToolCalls
      cases tc.value (Json.getInt lib) (lit "index") 0 with
      | none => exact ⟨rfl, rfl⟩
      | some idx =>
          exact ih { ctx with
            partialToolCalls := ctx.partialToolCalls.update idx.toInt {} (fillSlot tc) }

theorem handleFinishReason_keeps (ctx : StreamContext) (choice : Json) :
    (caught (handleFinishReason ctx choice)).fullText = ctx.fullText ∧
      (caught (handleFinishReason ctx choice)).onChunkCalls = ctx.onChunkCalls := by
  unfold handleFinishReason
  split <;> exact ⟨rfl, rfl⟩

theorem handleDelta_told (lib : JsonLib) {onChunk : OnChunk} {ctx : StreamContext} {text₀ : Str}
    (h : Told onChunk ctx.fullText text₀ ctx.onChunkCalls) (delta : Json) :
    Told onChunk (caught (handleDelta lib onChunk ctx delta)).fullText
      (text₀ ++ (delta.stringMember (lit "content")).getD [])
      (caught (handleDelta lib onChunk ctx delta)).onChunkCalls := by
  have hcontent := handleContent_told h delta
  unfold handleDelta
  rw [caught_bind]
  cases hrun : handleContent onChunk ctx delta with
  | error ctx' =>
      rw [hrun] at hcontent
      exact hcontent
  | ok ctx' =>
      rw [hrun] at hcontent
      cases delta.member (lit "tool_calls") with
      | none => exact hcontent
      | some j =>
          cases j with
          | arr toolCalls =>
              obtain ⟨htext, hcalls⟩ := handleToolCalls_keeps lib ctx' toolCalls
              simp only [htext, hcalls]
              exact hcontent
          | _ => exact hcontent

theorem handleChoice_told (lib : JsonLib) {onChunk : OnChunk} {ctx : StreamContext} {text₀ : Str}
    (h : Told onChunk ctx.fullText text₀ ctx.onChunkCalls) (choice : Json) :
    Told onChunk (caught (handleChoice lib onChunk ctx choice)).fullText
      (text₀ ++ choiceText choice) (caught (handleChoice lib onChunk ctx choice)).onChunkCalls := by
  unfold handleChoice choiceText
  rw [caught_bind]
  cases choice.member (lit "delta") with
  | none =>
      obtain ⟨htext, hcalls⟩ := handleFinishReason_keeps ctx choice
      rw [Option.elim_none]
      simp only [htext, hcalls, List.append_nil]
      exact h
  | some delta =>
      have hdelta := handleDelta_told lib h delta
      rw [Option.elim_some]
      cases hrun : handleDelta lib onChunk ctx delta with
      | error ctx' =>
          rw [hrun] at hdelta
          exact hdelta
      | ok ctx' =>
          rw [hrun] at hdelta
          obtain ⟨htext, hcalls⟩ := handleFinishReason_keeps ctx' choice
          simp only [htext, hcalls]
          exact hdelta

theorem processLine_told (lib : JsonLib) {onChunk : OnChunk} {ctx : StreamContext} {text₀ : Str}
    (h : Told onChunk ctx.fullText text₀ ctx.onChunkCalls) (line : Str) :
    Told onChunk (processLine lib onChunk ctx line).fullText (text₀ ++ lineText lib line)
      (processLine lib onChunk ctx line).onChunkCalls := by
  unfold processLine lineText
  by_cases hdata : (lit "data: ").isPrefixOf line = true
  · by_cases hdone : line.drop 6 = lit "[DONE]"
    · simpa [hdata, hdone] using h
    · simp only [hdata, if_true, hdone, if_false, ne_eq, not_false_eq_true, and_self]
      cases readChoice lib (line.drop 6) with
      | none => simpa using h
      | some choice => exact handleChoice_told lib h choice
  · simpa [hdata] using h

/-! ## Attempts -/

/-- One call of `DoInvokeOnce`, with what it handed to the callback. -/
def deliver (lib : JsonLib) (useNativeFunctionCalling : Bool) (onChunk : OnChunk)
    (transfer : Transfer) : Delivery where
  response := doInvokeOnce lib useNativeFunctionCalling onChunk transfer
  delivered :=
    (postStream (processSSEChunk lib onChunk) ({}, []) transfer.chunks).1.1.onChunkCalls

/-- The text a transfer streams until it ends or is cancelled. -/
def streamedText (lib : JsonLib) (transfer : Transfer) : Str :=
  (postStream (processSSEChunk lib none) ({}, []) transfer.chunks).1.1.fullText

theorem stream_told (lib : JsonLib) (onChunk : OnChunk) (transfer : Transfer) :
    Told onChunk
      (postStream (processSSEChunk lib onChunk) ({}, []) transfer.chunks).1.1.fullText
      (streamedText lib transfer)
      (postStream (processSSEChunk lib onChunk) ({}, []) transfer.chunks).1.1.onChunkCalls :=
  @postStream_told StreamContext StreamContext.fullText StreamContext.onChunkCalls
    (fun onChunk ctx line => (processLine lib onChunk ctx line, false)) (lineText lib)
    (fun _ _ _ line h => processLine_told lib h line) (fun _ _ _ _ => rfl) {} rfl rfl onChunk
    transfer.chunks

theorem deliver_attempts (lib : JsonLib) (useNativeFunctionCalling : Bool) :
    Attempts (deliver lib useNativeFunctionCalling) (streamedText lib) where
  retryable_iff := fun _ _ => respond_isRetryable rfl (postStream_cancelled _ _ _)
  retryable_error := fun _ _ => respond_error (postStream_cancelled _ _ _)
  content := fun onChunk transfer h =>
    (respond_content rfl h).trans (stream_told lib onChunk transfer).1
  delivered := fun onChunk transfer => by
    obtain ⟨htext, hcalls⟩ := stream_told lib onChunk transfer
    rw [← htext]
    exact hcalls

end JiuwenCore.Models.OpenAI

namespace JiuwenCore.Models.Anthropic

def lineText (lib : JsonLib) (line : Str) : Str :=
  match readEvent lib line with
  | .text text => text
  | _ => []

theorem processLine_told (lib : JsonLib) {onChunk : OnChunk} {ctx : StreamContext} {text₀ : Str}
    (h : Told onChunk ctx.fullText text₀ ctx.onChunkCalls) (line : Str) :
    Told onChunk (processLine lib onChunk ctx line).1.fullText (text₀ ++ lineText lib line)
      (processLine lib onChunk ctx line).1.onChunkCalls := by
  have hparsed := processLine_parsed lib onChunk ctx line
  have htext := congrArg Parsed.fullText hparsed
  have hcalls := congrArg Parsed.onChunkCalls hparsed
  change (processLine lib onChunk ctx line).1.fullText = _ at htext
  change (processLine lib onChunk ctx line).1.onChunkCalls = _ at hcalls
  rw [htext, hcalls, lineText]
  cases readEvent lib line with
  | text s => exact h.append s
  | _ => simpa [Parsed.apply, StreamContext.parsed] using h

/-- One call of `DoInvokeOnce`, with what it handed to the callback. -/
def deliver (lib : JsonLib) (useNativeFunctionCalling : Bool) (onChunk : OnChunk)
    (transfer : Transfer) : Delivery where
  response := doInvokeOnce lib useNativeFunctionCalling onChunk transfer
  delivered :=
    (postStream (processAnthropicSSEChunk lib onChunk) ({}, [])
      transfer.chunks).1.1.onChunkCalls

/-- The text a transfer streams until it ends or is cancelled. -/
def streamedText (lib : JsonLib) (transfer : Transfer) : Str :=
  (postStream (processAnthropicSSEChunk lib none) ({}, []) transfer.chunks).1.1.fullText

theorem stream_told (lib : JsonLib) (onChunk : OnChunk) (transfer : Transfer) :
    Told onChunk
      (postStream (processAnthropicSSEChunk lib onChunk) ({}, []) transfer.chunks).1.1.fullText
      (streamedText lib transfer)
      (postStream (processAnthropicSSEChunk lib onChunk) ({}, [])
        transfer.chunks).1.1.onChunkCalls :=
  @postStream_told StreamContext StreamContext.fullText StreamContext.onChunkCalls
    (processLine lib) (lineText lib) (fun _ _ _ line h => processLine_told lib h line)
    (fun _ _ _ _ => by rw [processLine_stop, processLine_stop]) {} rfl rfl onChunk transfer.chunks

theorem deliver_attempts (lib : JsonLib) (useNativeFunctionCalling : Bool) :
    Attempts (deliver lib useNativeFunctionCalling) (streamedText lib) where
  retryable_iff := fun _ _ => respond_isRetryable rfl (postStream_cancelled _ _ _)
  retryable_error := fun _ _ => respond_error (postStream_cancelled _ _ _)
  content := fun onChunk transfer h =>
    (respond_content rfl h).trans (stream_told lib onChunk transfer).1
  delivered := fun onChunk transfer => by
    obtain ⟨htext, hcalls⟩ := stream_told lib onChunk transfer
    rw [← htext]
    exact hcalls

end JiuwenCore.Models.Anthropic

namespace JiuwenCore.Models

/-! ## Both models -/

def OpenAI.invoke (lib : JsonLib) (useNativeFunctionCalling : Bool) (maxRetries : Int32)
    (onChunk : OnChunk) (attempts : Nat → Attempt) : Delivery :=
  Models.invoke (OpenAI.deliver lib useNativeFunctionCalling) maxRetries onChunk attempts

def Anthropic.invoke (lib : JsonLib) (useNativeFunctionCalling : Bool) (maxRetries : Int32)
    (onChunk : OnChunk) (attempts : Nat → Attempt) : Delivery :=
  Models.invoke (Anthropic.deliver lib useNativeFunctionCalling) maxRetries onChunk attempts

/-- When the chunks of a run that succeeds begin its answer: what the first attempt has
streamed begins what the answering one streams. -/
theorem delivered_begins_answer_iff (lib : JsonLib) (useNativeFunctionCalling : Bool)
    (maxRetries : Int32) (onChunk : OnChunk) (attempts : Nat → Attempt) :
    ((OpenAI.invoke lib useNativeFunctionCalling maxRetries onChunk
          attempts).response.Successful →
        ((OpenAI.invoke lib useNativeFunctionCalling maxRetries onChunk
            attempts).delivered.flatten <+:
          (OpenAI.invoke lib useNativeFunctionCalling maxRetries onChunk
            attempts).response.content ↔
          (onChunk.isSome → ∀ k, AnsweredBy attempts k →
            OpenAI.streamedText lib (attempts 0).transfer <+:
              OpenAI.streamedText lib (attempts k).transfer))) ∧
      ((Anthropic.invoke lib useNativeFunctionCalling maxRetries onChunk
          attempts).response.Successful →
        ((Anthropic.invoke lib useNativeFunctionCalling maxRetries onChunk
            attempts).delivered.flatten <+:
          (Anthropic.invoke lib useNativeFunctionCalling maxRetries onChunk
            attempts).response.content ↔
          (onChunk.isSome → ∀ k, AnsweredBy attempts k →
            Anthropic.streamedText lib (attempts 0).transfer <+:
              Anthropic.streamedText lib (attempts k).transfer))) :=
  ⟨delivered_prefix_iff (OpenAI.deliver_attempts lib useNativeFunctionCalling) maxRetries onChunk
      attempts,
    delivered_prefix_iff (Anthropic.deliver_attempts lib useNativeFunctionCalling) maxRetries
      onChunk attempts⟩

/-- An event with one word of the answer, and a library that parses two of them. -/
def wordEvent (word : Str) : Json :=
  .obj [(lit "choices", .arr [.obj [(lit "delta", .obj [(lit "content", .str word)])]])]

def wordText (word : Str) : Str := (wordEvent word).print fun _ => lit "0.0"

def wordLib : JsonLib :=
  compactLib (fun _ => lit "0.0") fun text =>
    if text = wordText (lit "No") then some (wordEvent (lit "No"))
    else if text = wordText (lit "Yes") then some (wordEvent (lit "Yes"))
    else none

def wordTransfer (word : Str) (response : CurlResponse) : Transfer where
  chunks := [(lit "data: " ++ wordText word ++ [10], false)]
  response := response

/-- The connection is lost after the first word; the second attempt succeeds. -/
def lostThenAnswered (first second : Str) (attempt : Nat) : Attempt where
  shouldCancel := false
  transfer :=
    if attempt = 0 then wordTransfer first { curlCode := .recvError, isCurlError := true }
    else wordTransfer second { statusCode := 200 }

theorem lostThenAnswered_answered (first second : Str) :
    AnsweredBy (lostThenAnswered first second) 1 := by
  refine ⟨?_, ?_⟩
  · intro j hj
    obtain rfl : j = 0 := Nat.lt_one_iff.mp hj
    exact ⟨by simp [lostThenAnswered, wordTransfer], by simp [lostThenAnswered, wordTransfer,
      isRetryableCurlError]⟩
  · intro h
    have hstatus := h.2
    simp [lostThenAnswered, wordTransfer, isRetryableHttpStatus] at hstatus

theorem delivered_begins_answer_repeated :
    (OpenAI.invoke wordLib true 2 (some fun _ _ => false)
        (lostThenAnswered (lit "No") (lit "No"))).delivered.flatten <+:
      (OpenAI.invoke wordLib true 2 (some fun _ _ => false)
        (lostThenAnswered (lit "No") (lit "No"))).response.content := by
  have hsuccess : (OpenAI.invoke wordLib true 2 (some fun _ _ => false)
      (lostThenAnswered (lit "No") (lit "No"))).response.Successful :=
    ⟨by decide +kernel, by decide +kernel⟩
  refine ((delivered_begins_answer_iff wordLib true 2 (some fun _ _ => false)
    (lostThenAnswered (lit "No") (lit "No"))).1 hsuccess).mpr fun _ k hk => ?_
  obtain rfl : 1 = k := (lostThenAnswered_answered _ _).unique hk
  exact List.prefix_rfl

/-- The word of the abandoned attempt stands in front of the answer. -/
theorem delivered_not_answer :
    ¬ ∀ (lib : JsonLib) (useNativeFunctionCalling : Bool) (maxRetries : Int32) (onChunk : OnChunk)
      (attempts : Nat → Attempt),
      (OpenAI.invoke lib useNativeFunctionCalling maxRetries onChunk
        attempts).response.Successful →
      (OpenAI.invoke lib useNativeFunctionCalling maxRetries onChunk
          attempts).delivered.flatten <+:
        (OpenAI.invoke lib useNativeFunctionCalling maxRetries onChunk
          attempts).response.content := by
  intro h
  have hprefix := h wordLib true 2 (some fun _ _ => false)
    (lostThenAnswered (lit "No") (lit "Yes")) ⟨by decide +kernel, by decide +kernel⟩
  exact absurd hprefix (by decide +kernel)

end JiuwenCore.Models
