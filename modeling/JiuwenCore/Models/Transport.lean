import JiuwenCore.Message
import JiuwenCore.Json

/-!
# Streaming a response

What both models share around their line parsers: the transfer that feeds the
received chunks to the parser and polls for cancellation, and the response made
from what was parsed and how the transfer ended.
-/

namespace JiuwenCore.Models

/-- The result codes of the transfer library that the retry policy tells apart. -/
inductive CurlCode where
  | ok
  | couldntResolveHost
  | couldntConnect
  | partialFile
  | operationTimedout
  | gotNothing
  | sendError
  | recvError
  | other (code : Nat)
  deriving DecidableEq, Repr

structure CurlResponse where
  statusCode : Nat := 0
  curlCode : CurlCode := .ok
  isCurlError : Bool := false
  curlErrorStr : Str := []

def isRetryableHttpStatus (httpCode : Nat) : Bool :=
  httpCode = 429 || httpCode = 500 || httpCode = 502 || httpCode = 503 || httpCode = 504

def isRetryableCurlError : CurlCode → Bool
  | .operationTimedout | .couldntConnect | .couldntResolveHost | .recvError | .sendError
  | .gotNothing | .partialFile => true
  | .ok | .other _ => false

structure ModelResponse where
  content : Str := []
  toolCalls : List ToolCall := []
  isFinished : Bool := false
  finishReason : Str := []
  isRetryable : Bool := false
  statusCode : Option Nat := none
  deriving DecidableEq, Repr

/-- The chunk callback, or none. Given the texts it was called with before and
the new one, it tells whether the call throws. -/
abbrev OnChunk := Option (List Str → Str → Bool)

/-- The context after `catch`: an exception carries it as it was at the throw. -/
def caught {σ : Type} : Except σ σ → σ
  | .ok ctx => ctx
  | .error ctx => ctx

theorem caught_bind {σ : Type} (r : Except σ σ) (f : σ → Except σ σ) :
    caught (r >>= f) = match r with
      | .ok ctx => caught (f ctx)
      | .error ctx => ctx := by
  cases r <;> rfl

/-- The call of `onChunk` on a text, recorded in `calls`. -/
def emit (onChunk : OnChunk) (calls : List Str) (text : Str) : List Str × Bool :=
  match onChunk with
  | none => (calls, false)
  | some throws => (calls ++ [text], throws calls text)

/-- One transfer: every received chunk with the answer of `shouldCancel` after
it, and how the transfer ends when it is not cancelled. -/
structure Transfer where
  chunks : List (Str × Bool)
  response : CurlResponse

/-- The chunks handled by the parser, up to the first after which the caller
cancels. -/
def postStream {σ : Type} (process : σ → Str → σ) (ctx : σ) : List (Str × Bool) → σ × Bool
  | [] => (ctx, false)
  | (data, shouldCancel) :: rest =>
      if shouldCancel then (process ctx data, true) else postStream process (process ctx data) rest

/-- The response of `DoInvokeOnce`, where `success` is the part that is made
from the parsed stream. -/
def respond (fullText : Str) (cancelled : Bool) (resp : CurlResponse) (success : ModelResponse) :
    ModelResponse :=
  if cancelled then
    { content := fullText, finishReason := lit "cancelled", isFinished := true }
  else if resp.isCurlError then
    { content := lit "Error: " ++ resp.curlErrorStr
      finishReason := lit "error"
      isFinished := true
      isRetryable := isRetryableCurlError resp.curlCode }
  else if resp.statusCode ≥ 400 then
    { content :=
        if fullText = [] then lit "Error: HTTP " ++ toDecimal resp.statusCode else fullText
      finishReason := lit "error"
      isFinished := true
      isRetryable := isRetryableHttpStatus resp.statusCode
      statusCode := some resp.statusCode }
  else { success with isFinished := true, statusCode := some resp.statusCode }

/-- A transfer that ran to its end and was answered without an error. -/
def Transfer.Completed (transfer : Transfer) : Prop :=
  (∀ chunk ∈ transfer.chunks, chunk.2 = false) ∧ transfer.response.isCurlError = false ∧
    transfer.response.statusCode < 400

theorem postStream_completed {σ : Type} (process : σ → Str → σ) (ctx : σ)
    (chunks : List (Str × Bool)) (h : ∀ chunk ∈ chunks, chunk.2 = false) :
    postStream process ctx chunks = ((chunks.map (·.1)).foldl process ctx, false) := by
  induction chunks generalizing ctx with
  | nil => rfl
  | cons chunk rest ih =>
      rcases chunk with ⟨data, shouldCancel⟩
      have hpoll : shouldCancel = false := h _ List.mem_cons_self
      rw [postStream, hpoll, if_neg Bool.false_ne_true,
        ih _ fun c hc => h c (List.mem_cons_of_mem _ hc)]
      rfl

/-- A relation that every chunk keeps holds when the transfer ends, and both sides
are cancelled at the same chunk. -/
theorem postStream_simulates {σ τ : Type} {process : σ → Str → σ} {process' : τ → Str → τ}
    {R : σ → τ → Prop} (hchunk : ∀ s t data, R s t → R (process s data) (process' t data)) {s : σ}
    {t : τ} (h : R s t) (chunks : List (Str × Bool)) :
    R (postStream process s chunks).1 (postStream process' t chunks).1 ∧
      (postStream process s chunks).2 = (postStream process' t chunks).2 := by
  induction chunks generalizing s t with
  | nil => exact ⟨h, rfl⟩
  | cons chunk rest ih =>
      rcases chunk with ⟨data, shouldCancel⟩
      have hnext := hchunk s t data h
      cases shouldCancel with
      | true => exact ⟨hnext, rfl⟩
      | false => exact ih hnext

theorem respond_completed {transfer : Transfer} (h : transfer.Completed) (fullText : Str)
    (success : ModelResponse) :
    respond fullText false transfer.response success =
      { success with isFinished := true, statusCode := some transfer.response.statusCode } := by
  rcases h with ⟨_, hcurl, hstatus⟩
  rw [respond, if_neg Bool.false_ne_true, hcurl, if_neg Bool.false_ne_true, if_neg (by omega)]

end JiuwenCore.Models
