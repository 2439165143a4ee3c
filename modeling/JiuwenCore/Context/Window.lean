import JiuwenCore.Message

/-!
# The context window

`ContextEngine::ApplyContextLimits` and everything it calls: the token estimate,
the merge of adjacent messages, the segments, the compression of the boundary
segment, the truncation and the two passes that pair tool calls with results.

Token counts are unbounded here. The C++ sums are `int`s.
-/

namespace JiuwenCore.ContextEngine

/-! ## Token estimate -/

/-- The scan of `EstimateTokens`: `skip` bytes of the current code point are
still to be passed over, `ascii` and `wide` are the characters counted. -/
def countChars : (skip ascii wide : Nat) → Str → Nat × Nat
  | _, ascii, wide, [] => (ascii, wide)
  | skip + 1, ascii, wide, _ :: rest => countChars skip ascii wide rest
  | 0, ascii, wide, c :: rest =>
      if c < 0x80 then countChars 0 (ascii + 1) wide rest
      else if c >>> 5 = 0x6 then countChars 1 ascii (wide + 1) rest
      else if c >>> 4 = 0xE then countChars 2 ascii (wide + 1) rest
      else if c >>> 3 = 0x1E then countChars 3 ascii (wide + 1) rest
      else countChars 0 ascii (wide + 1) rest

def estimateTokens (text : Str) : Nat :=
  let (ascii, wide) := countChars 0 0 0 text
  ascii / 4 + wide * 3 / 4

def calculateMessageTokens (msg : Message) : Nat :=
  estimateTokens msg.role + estimateTokens msg.content +
    (msg.toolCalls.map fun tc => estimateTokens tc.name + estimateTokens tc.argumentsJson).sum +
    (estimateTokens msg.toolCallId + estimateTokens msg.toolName + estimateTokens msg.payloadRef)

def calculateMessagesTokens (messages : List Message) : Nat :=
  (messages.map calculateMessageTokens).sum

/-! ## Merging adjacent messages -/

def canMerge (prev cur : Message) : Bool :=
  if prev.role ≠ cur.role then false
  else if prev.role = Role.tool then false
  else if prev.role = Role.assistant ∧ (prev.toolCalls ≠ [] ∨ cur.toolCalls ≠ []) then false
  else true

def mergeMessageContent (left right : Str) : Str :=
  if left = [] then right else if right = [] then left else left ++ lit "\n\n" ++ right

/-- The merge loop with `back` the last message of `sanitized`. -/
@[grind =] def mergeInto (back : Message) : List Message → List Message
  | [] => [back]
  | msg :: rest =>
      if canMerge back msg then
        mergeInto { back with content := mergeMessageContent back.content msg.content } rest
      else back :: mergeInto msg rest

/-- `sanitized` of `ApplyContextLimits`. -/
def sanitize : List Message → List Message
  | [] => []
  | msg :: rest => mergeInto msg rest

/-! ## Segments -/

/-- A half-open index range of the sanitized messages. -/
structure MessageSegment where
  start : Nat
  stop : Nat
  startsWithUser : Bool
  tokens : Nat
  deriving DecidableEq, Repr

/-- `std::vector(messages.begin() + start, messages.begin() + stop)`. -/
def slice (messages : List Message) (start stop : Nat) : List Message :=
  (messages.drop start).take (stop - start)

def MessageSegment.slice (segment : MessageSegment) (messages : List Message) : List Message :=
  ContextEngine.slice messages segment.start segment.stop

def closeSegment (messages : List Message) (start stop : Nat) : MessageSegment where
  start := start
  stop := stop
  startsWithUser := messages[start]?.any fun m => decide m.isUser
  tokens := calculateMessagesTokens (slice messages start stop)

/-- The loop of `BuildMessageSegments` at index `i`, with the messages from `i` on. -/
def segmentsFrom (messages : List Message) (start i : Nat) : List Message → List MessageSegment
  | [] => [closeSegment messages start messages.length]
  | msg :: rest =>
      if msg.isUser then closeSegment messages start i :: segmentsFrom messages i (i + 1) rest
      else segmentsFrom messages start (i + 1) rest

def buildMessageSegments : List Message → List MessageSegment
  | [] => []
  | first :: rest => segmentsFrom (first :: rest) 0 1 rest

/-! ## Compressing a segment -/

/-- The line of one tool message in the summary. -/
def toolSummary (message : Message) : Str :=
  let summary := lit "- " ++ (if message.toolName = [] then lit "tool" else message.toolName)
  let summary :=
    if message.payloadRef ≠ [] then summary ++ lit " payload_ref=" ++ message.payloadRef
    else summary
  if message.content ≠ [] then
    let preview := message.content.take 240
    let preview :=
      if message.content.length > preview.length then preview ++ lit "..." else preview
    summary ++ lit ": " ++ preview
  else summary

/-- One turn of the collecting loop: the tool summaries and the last plain
assistant text so far. -/
def collectSummary (acc : List Str × Str) (message : Message) : List Str × Str :=
  if message.role = Role.tool then (acc.1 ++ [toolSummary message], acc.2)
  else if message.role = Role.assistant ∧ message.toolCalls = [] ∧ message.content ≠ [] then
    (acc.1, message.content)
  else acc

def summaryContent (toolSummaries : List Str) (lastAssistantText : Str) : Str :=
  let content := lit "Context segment compressed due to context window limits."
  let content :=
    if toolSummaries ≠ [] then
      let kept := toolSummaries.take 8
      let content := content ++ lit "\n\nTool results summary:" ++
        kept.flatMap fun item => lit "\n" ++ item
      if toolSummaries.length > kept.length then content ++ lit "\n- ..." else content
    else content
  if lastAssistantText ≠ [] then
    let preview := lastAssistantText.take 800
    let preview :=
      if lastAssistantText.length > preview.length then preview ++ lit "..." else preview
    content ++ lit "\n\nLatest assistant state:\n" ++ preview
  else content

/-- The halving loop. `fuel` is the length of the content, which the loop never
exhausts (`halveToFit_fits`). -/
def halveToFit (budget : Int) : (fuel : Nat) → Str → Str
  | 0, content => content
  | fuel + 1, content =>
      if (estimateTokens content : Int) > budget ∧ content ≠ [] then
        halveToFit budget fuel (content.take (content.length / 2))
      else content

/-- The summary cut down to what the budget leaves after the retained prefix. -/
def truncateSummary (kept : List Message) (summary : Message) (tokenBudget : Int) : Message :=
  let budgetForSummary := max 1 (tokenBudget - calculateMessagesTokens kept)
  let content := halveToFit budgetForSummary summary.content.length summary.content
  { summary with content := if content = [] then lit "[compressed]" else content }

/-- The user message that opens a segment, kept by the compression. -/
def openingUser : List Message → List Message
  | [] => []
  | first :: _ => if first.isUser then [first] else []

def compressSegment (config : ContextConfig) (messages : List Message) (segment : MessageSegment)
    (tokenBudget : Int) : List Message :=
  if segment.start ≥ segment.stop ∨ segment.stop > messages.length ∨ tokenBudget ≤ 0 then []
  else
    let segmentMessages := segment.slice messages
    if (calculateMessagesTokens segmentMessages : Int) ≤ tokenBudget ∧
        (segmentMessages.length : Int) ≤ config.maxMessages.toInt then segmentMessages
    else
      let compressed := openingUser segmentMessages
      let (toolSummaries, lastAssistantText) := segmentMessages.foldl collectSummary ([], [])
      if toolSummaries ≠ [] ∨ lastAssistantText ≠ [] then
        let summary : Message :=
          { role := Role.assistant, content := summaryContent toolSummaries lastAssistantText }
        if (calculateMessagesTokens (compressed ++ [summary]) : Int) > tokenBudget then
          compressed ++ [truncateSummary compressed summary tokenBudget]
        else compressed ++ [summary]
      else compressed

/-! ## Selecting segments -/

/-- Where the walk from the newest segment to the oldest ends: the segments
admitted whole (newest first), their tokens, and the first that does not fit. -/
structure Selection where
  admitted : List MessageSegment
  totalTokens : Nat
  boundary : Option MessageSegment

/-- The admitting part of the walk, over the segments newest first. -/
@[grind =]
def admitSegments (config : ContextConfig) (sanitized : List Message) (totalTokens : Nat) :
    List MessageSegment → Selection
  | [] => ⟨[], totalTokens, none⟩
  | segment :: older =>
      let segmentMessages := segment.slice sanitized
      let segmentTokens := calculateMessagesTokens segmentMessages
      let fitsMessages := (segmentMessages.length : Int) ≤ config.maxMessages.toInt
      let fitsTokens := (totalTokens + segmentTokens : Int) ≤ config.maxContextTokens.toInt
      if fitsMessages ∧ fitsTokens then
        let next := admitSegments config sanitized (totalTokens + segmentTokens) older
        { next with admitted := segment :: next.admitted }
      else ⟨[], totalTokens, some segment⟩

/-- The boundary segment, compressed into what the admitted ones leave. -/
def compressBoundary (config : ContextConfig) (sanitized : List Message)
    (selection : Selection) : List Message :=
  match selection.boundary with
  | none => []
  | some segment =>
      let budget := max (config.maxContextTokens.toInt - selection.totalTokens) 1
      compressSegment config sanitized segment budget

/-- `result` before truncation: the boundary and then the admitted segments,
oldest first. -/
def selectMessages (config : ContextConfig) (sanitized : List Message) : List Message :=
  let selection := admitSegments config sanitized 0 (buildMessageSegments sanitized).reverse
  compressBoundary config sanitized selection ++
    selection.admitted.reverse.flatMap fun segment => segment.slice sanitized

/-! ## Truncation -/

/-- `static_cast<size_t>` of an `int`. -/
def toSizeT (n : Int32) : Nat := (n.toInt % 2 ^ 64).toNat

/-- `result.size() - target` in `size_t` arithmetic. -/
def truncationExcess (config : ContextConfig) (size : Nat) : Nat :=
  let target := max (toSizeT config.maxMessages) 1
  if target ≤ size then size - target else size + 2 ^ 64 - target

def truncateFront (config : ContextConfig) (result : List Message) : List Message :=
  if (result.length : Int) > config.maxMessages.toInt ∧ result.length > 1 then
    result.drop (truncationExcess config result.length)
  else result

/-! ## Pairing tool calls with tool results -/

def toolResultIds (msgs : List Message) : List Str :=
  (msgs.filter fun m => m.isTool ∧ m.toolCallId ≠ []).map (·.toolCallId)

def assistantCallIds (msgs : List Message) : List Str :=
  (msgs.filter fun m => m.isAssistant).flatMap fun m => m.callIds.filter (· ≠ [])

/-- The rewriting loop of `DropOrphanToolCalls` over the result ids it collected. -/
def stripOrphanCalls (resultIds : List Str) : List Message → List Message × Nat
  | [] => ([], 0)
  | msg :: rest =>
      let (cleaned, dropped) := stripOrphanCalls resultIds rest
      if msg.isAssistant ∧ msg.toolCalls ≠ [] then
        let kept := msg.toolCalls.filter fun tc => tc.id ≠ [] ∧ tc.id ∈ resultIds
        let dropped := dropped + (msg.toolCalls.length - kept.length)
        if kept = [] ∧ msg.content = [] then (cleaned, dropped)
        else ({ msg with toolCalls := kept } :: cleaned, dropped)
      else (msg :: cleaned, dropped)

def dropOrphanToolCalls (msgs : List Message) : List Message × Nat :=
  stripOrphanCalls (toolResultIds msgs) msgs

/-- The rewriting loop of `DropUnpairedToolMessages`. -/
def dropOrphanResults (callIds : List Str) : List Message → List Message × Nat
  | [] => ([], 0)
  | msg :: rest =>
      let (cleaned, dropped) := dropOrphanResults callIds rest
      if msg.isTool ∧ msg.toolCallId ∉ callIds then (cleaned, dropped + 1)
      else (msg :: cleaned, dropped)

def dropUnpairedToolMessages (msgs : List Message) : List Message × Nat :=
  let (msgs, droppedCalls) := dropOrphanToolCalls msgs
  let (cleaned, droppedResults) := dropOrphanResults (assistantCallIds msgs) msgs
  (cleaned, droppedCalls + droppedResults)

/-! ## The window -/

def applyContextLimits (config : ContextConfig) (messages : List Message) : List Message :=
  if messages = [] then []
  else
    let sanitized := sanitize messages
    let result := truncateFront config (selectMessages config sanitized)
    (dropUnpairedToolMessages result).1

/-- The window over a snapshot of the message buffer. -/
def getContextWindow (config : ContextConfig) (memoryBuffer : List Message) : List Message :=
  if memoryBuffer = [] then [] else applyContextLimits config memoryBuffer

end JiuwenCore.ContextEngine
