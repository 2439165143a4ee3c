import JiuwenCore.Context.Window
import JiuwenCore.Lib.Checked

/-!
# The context window with its numbers

The functions of the window once more, with the `int`s of the source: sizes are cast, every sum
of token counts is taken by `sum`, and every pair of iterators is looked at before it is used.
-/

namespace JiuwenCore.CheckedWindow

open ContextEngine hiding calculateMessageTokens calculateMessagesTokens segmentsFrom
  buildMessageSegments truncateSummary compressSegment admitSegments truncateFront
  applyContextLimits

/-- What the language leaves undefined. -/
inductive Fault where
  | range
  | overflow
  deriving DecidableEq, Repr

abbrev Checks (α : Type) := Except Fault α

/-- A signed sum that must not overflow. -/
def signed (n : Int) : Checks Int :=
  (Checked.checked (-2 ^ 31) (2 ^ 31 - 1) n).elim (.error .overflow) .ok

/-- `static_cast<int>` of a `size_t`. -/
def toInt (n : Nat) : Int := if n % 2 ^ 32 < 2 ^ 31 then n % 2 ^ 32 else n % 2 ^ 32 - 2 ^ 32

/-- The elements between two iterators. -/
def range (messages : List Message) (start stop : Nat) : Checks (List Message) :=
  if start ≤ stop ∧ stop ≤ messages.length then .ok (slice messages start stop)
  else .error .range

def estimate (text : Str) : Int := toInt (estimateTokens text)

section Sums

variable (sum : Int → Checks Int)

def addCallTokens (total : Int) (tc : ToolCall) : Checks Int := do
  let tokens ← sum (estimate tc.name + estimate tc.argumentsJson)
  sum (total + tokens)

def calculateMessageTokens (msg : Message) : Checks Int := do
  let total ← sum (estimate msg.role + estimate msg.content)
  let total ← msg.toolCalls.foldlM (addCallTokens sum) total
  let result ← sum (estimate msg.toolCallId + estimate msg.toolName)
  let result ← sum (result + estimate msg.payloadRef)
  sum (total + result)

def addMessageTokens (total : Int) (msg : Message) : Checks Int := do
  let tokens ← calculateMessageTokens sum msg
  sum (total + tokens)

def calculateMessagesTokens (messages : List Message) : Checks Int :=
  messages.foldlM (addMessageTokens sum) 0

/-- The sum that is stored in the segment is not read again. -/
def closeSegment (messages : List Message) (start stop : Nat) : Checks MessageSegment := do
  let segmentMessages ← range messages start stop
  let _ ← calculateMessagesTokens sum segmentMessages
  return ContextEngine.closeSegment messages start stop

def segmentsFrom (messages : List Message) (start i : Nat) :
    List Message → Checks (List MessageSegment)
  | [] => do
      let segment ← closeSegment sum messages start messages.length
      return [segment]
  | msg :: rest =>
      if msg.isUser then do
        let segment ← closeSegment sum messages start i
        let later ← segmentsFrom messages i (i + 1) rest
        return segment :: later
      else segmentsFrom messages start (i + 1) rest

def buildMessageSegments : List Message → Checks (List MessageSegment)
  | [] => return []
  | first :: rest => segmentsFrom sum (first :: rest) 0 1 rest

def truncateSummary (kept : List Message) (summary : Message) (tokenBudget : Int) :
    Checks Message := do
  let prefixTokens ← calculateMessagesTokens sum kept
  let left ← sum (tokenBudget - prefixTokens)
  let content := halveToFit (max 1 left) summary.content.length summary.content
  return { summary with content := if content = [] then lit "[compressed]" else content }

def compressSegment (config : ContextConfig) (messages : List Message) (segment : MessageSegment)
    (tokenBudget : Int) : Checks (List Message) :=
  if segment.start ≥ segment.stop ∨ segment.stop > messages.length ∨ tokenBudget ≤ 0 then
    return []
  else do
    let segmentMessages ← range messages segment.start segment.stop
    let tokens ← calculateMessagesTokens sum segmentMessages
    if tokens ≤ tokenBudget ∧ toInt segmentMessages.length ≤ config.maxMessages.toInt then
      return segmentMessages
    else
      let compressed := openingUser segmentMessages
      let (toolSummaries, lastAssistantText) := segmentMessages.foldl collectSummary ([], [])
      if toolSummaries ≠ [] ∨ lastAssistantText ≠ [] then
        let summary : Message :=
          { role := Role.assistant, content := summaryContent toolSummaries lastAssistantText }
        let tokens ← calculateMessagesTokens sum (compressed ++ [summary])
        if tokens > tokenBudget then
          let summary ← truncateSummary sum compressed summary tokenBudget
          return compressed ++ [summary]
        else return compressed ++ [summary]
      else return compressed

/-- The walk over the segments, newest first: what it pushes to `selectedReversed`. -/
def admitSegments (config : ContextConfig) (sanitized : List Message) (totalTokens : Int) :
    List MessageSegment → Checks (List (List Message))
  | [] => return []
  | segment :: older => do
      let segmentMessages ← range sanitized segment.start segment.stop
      let segmentTokens ← calculateMessagesTokens sum segmentMessages
      let both ← sum (totalTokens + segmentTokens)
      if toInt segmentMessages.length ≤ config.maxMessages.toInt ∧
          both ≤ config.maxContextTokens.toInt then
        let selected ← admitSegments config sanitized both older
        return segmentMessages :: selected
      else
        let left ← sum (config.maxContextTokens.toInt - totalTokens)
        let compressed ← compressSegment sum config sanitized segment (max left 1)
        if compressed ≠ [] then
          let tokens ← calculateMessagesTokens sum compressed
          let _ ← sum (totalTokens + tokens)
          return [compressed]
        else return []

/-- The erasure at the front, with the distance `truncationExcess` from `begin()`. -/
def truncateFront (config : ContextConfig) (result : List Message) : Checks (List Message) :=
  if toInt result.length > config.maxMessages.toInt ∧ result.length > 1 then do
    let _ ← range result 0 (truncationExcess config result.length)
    return result.drop (truncationExcess config result.length)
  else return result

/-- The tokens of the window are counted for the log. -/
def applyContextLimits (config : ContextConfig) (messages : List Message) :
    Checks (List Message) :=
  if messages = [] then return []
  else do
    let sanitized := sanitize messages
    let segments ← buildMessageSegments sum sanitized
    let walked := segments.take (toInt segments.length).toNat
    let selectedReversed ← admitSegments sum config sanitized 0 walked.reverse
    let result ← truncateFront config selectedReversed.reverse.flatten
    let window := (dropUnpairedToolMessages result).1
    let _ ← calculateMessagesTokens sum window
    return window

end Sums

end JiuwenCore.CheckedWindow
