import JiuwenCore.Models.AnthropicEvents

/-!
# Cutting an Anthropic stream into chunks

When the response does not depend on how the stream was cut, and an example of
when it does: text that follows a `message_stop` is dropped in the chunk of the
stop and read in the next one.
-/

namespace JiuwenCore.Models.Anthropic

/-- The events of the complete lines in front of the first `message_stop`. -/
def eventsBeforeStop (lib : JsonLib) (buf : Str) : List Event :=
  (LineFeed.beforeStop 10 (isMessageStop lib) buf).map (readEvent lib)

/-- No suffix of what follows the first `message_stop` has, in front of its own
first one, a text, a new tool use, input for a tool use opened before the stop,
or in the end another stop reason. -/
def QuietBehindStop (lib : JsonLib) (stream : Str) : Prop :=
  ∀ behind, LineFeed.behindStop 10 (isMessageStop lib) stream = some behind →
    ∀ t, t <:+ behind →
      Quiet (openedTools (eventsBeforeStop lib stream))
        ((lastStopReason (eventsBeforeStop lib stream)).getD []) (eventsBeforeStop lib t)

theorem parsed_step (lib : JsonLib) (onChunk : OnChunk) (ctx ctx' : StreamContext) (line : Str)
    (h : ctx.parsed = ctx'.parsed) :
    (processLine lib onChunk ctx line).1.parsed = (processLine lib onChunk ctx' line).1.parsed := by
  rw [processLine_parsed, processLine_parsed, h]

/-- What is parsed up to the first `message_stop`. -/
def parsedBeforeStop (lib : JsonLib) (onChunk : OnChunk) (stream : Str) : Parsed :=
  Parsed.run onChunk.isSome {} (eventsBeforeStop lib stream)

theorem run_beforeStop (lib : JsonLib) (onChunk : OnChunk) (stream : Str) :
    (LineFeed.run (processLine lib onChunk) {}
      (LineFeed.beforeStop 10 (isMessageStop lib) stream)).parsed =
        parsedBeforeStop lib onChunk stream :=
  run_parsed lib onChunk {} _

/-- What follows the first `message_stop` is quiet exactly when reading it would
change nothing. -/
theorem run_behindStop_iff (lib : JsonLib) (onChunk : OnChunk) (stream t : Str) :
    (LineFeed.run (processLine lib onChunk)
        (LineFeed.run (processLine lib onChunk) {}
          (LineFeed.beforeStop 10 (isMessageStop lib) stream))
        (LineFeed.beforeStop 10 (isMessageStop lib) t)).parsed =
      (LineFeed.run (processLine lib onChunk) {}
        (LineFeed.beforeStop 10 (isMessageStop lib) stream)).parsed ↔
    Quiet (openedTools (eventsBeforeStop lib stream))
      ((lastStopReason (eventsBeforeStop lib stream)).getD []) (eventsBeforeStop lib t) := by
  have hproper : ∀ event ∈ eventsBeforeStop lib t, event.Proper := by
    intro event hevent
    obtain ⟨line, _, rfl⟩ := List.mem_map.mp hevent
    exact readEvent_proper lib line
  have hlength : (parsedBeforeStop lib onChunk stream).toolUses.length =
      openedTools (eventsBeforeStop lib stream) := by
    rw [parsedBeforeStop, run_toolUses_length]
    exact Nat.zero_add _
  have hreason : (parsedBeforeStop lib onChunk stream).finishReason =
      (lastStopReason (eventsBeforeStop lib stream)).getD [] :=
    run_finishReason onChunk.isSome {} _
  rw [run_parsed, run_beforeStop, ← hlength, ← hreason]
  exact run_eq_self_iff onChunk.isSome _ hproper

/-- A stream that is received whole is parsed up to its first `message_stop`. -/
theorem parsed_whole (lib : JsonLib) (onChunk : OnChunk) (stream : Str) :
    (processAnthropicSSEChunk lib onChunk ({}, []) stream).1.parsed =
      parsedBeforeStop lib onChunk stream := by
  unfold processAnthropicSSEChunk
  rw [LineFeed.feed_eq, LineFeed.consume_eq (processLine lib onChunk) (isMessageStop lib)
    (processLine_stop lib onChunk) (processLine_keep lib onChunk)]
  exact run_beforeStop lib onChunk stream

/-- Cut anyhow, a stream is parsed as if received whole when what follows its first
`message_stop` is quiet. -/
theorem parsed_cuts {lib : JsonLib} (onChunk : OnChunk) (chunks : List Str)
    (h : QuietBehindStop lib chunks.flatten) :
    (chunks.foldl (processAnthropicSSEChunk lib onChunk) ({}, [])).1.parsed =
      parsedBeforeStop lib onChunk chunks.flatten := by
  have hsplits := (LineFeed.splits_agree_iff 10 (processLine lib onChunk) (isMessageStop lib)
    (processLine_stop lib onChunk) (processLine_keep lib onChunk) StreamContext.parsed
    (parsed_step lib onChunk) {} chunks.flatten).mpr fun behind hbehind t ht =>
      (run_behindStop_iff lib onChunk chunks.flatten t).mpr (h behind hbehind t ht)
  exact (hsplits chunks rfl).trans (parsed_whole lib onChunk chunks.flatten)

/-- The text, the stop reason, the tool uses and the calls of `onChunk` are the
same for every way of cutting the stream exactly when nothing that counts follows
the first `message_stop`. -/
theorem cuts_unnoticed_iff (lib : JsonLib) (onChunk : OnChunk) (stream : Str) :
    (∀ chunks : List Str, chunks.flatten = stream →
      (chunks.foldl (processAnthropicSSEChunk lib onChunk) ({}, [])).1.parsed =
        (processAnthropicSSEChunk lib onChunk ({}, []) stream).1.parsed) ↔
    QuietBehindStop lib stream := by
  have hsplits := LineFeed.splits_agree_iff 10 (processLine lib onChunk) (isMessageStop lib)
    (processLine_stop lib onChunk) (processLine_keep lib onChunk) StreamContext.parsed
    (parsed_step lib onChunk) {} stream
  refine hsplits.trans (forall₂_congr fun behind _ => forall₂_congr fun t _ => ?_)
  exact run_behindStop_iff lib onChunk stream t

/-- A `message_stop` event and a text behind it. -/
def stopText : Str := lit "\x7b\"type\":\"message_stop\"\x7d"

def lateText : Str :=
  lit "\x7b\"type\":\"content_block_delta\",\"index\":0," ++
    lit "\"delta\":\x7b\"type\":\"text_delta\",\"text\":\"late\"\x7d\x7d"

def lateEvent : Json :=
  .obj [(lit "delta",
      .obj [(lit "text", .str (lit "late")), (lit "type", .str (lit "text_delta"))]),
    (lit "index", .int 0), (lit "type", .str (lit "content_block_delta"))]

/-- A library that knows these two events. -/
def lateLib : JsonLib where
  parse := fun s =>
    if s = stopText then some (.obj [(lit "type", .str (lit "message_stop"))])
    else if s = lateText then some lateEvent
    else none
  dump := fun _ => none
  dumpIndented := fun _ _ => none
  floatToInt := fun _ => 0

def lateChunks : List Str := [lit "data: " ++ stopText ++ [10], lit "data: " ++ lateText ++ [10]]

/-- In two chunks the late text is read, in one it is not. -/
theorem cuts_noticed :
    ¬ ∀ (lib : JsonLib) (onChunk : OnChunk) (stream : Str) (chunks : List Str),
      chunks.flatten = stream →
        (chunks.foldl (processAnthropicSSEChunk lib onChunk) ({}, [])).1.parsed =
          (processAnthropicSSEChunk lib onChunk ({}, []) stream).1.parsed := by
  intro h
  have hcuts := congrArg Parsed.fullText (h lateLib none lateChunks.flatten lateChunks rfl)
  have htwo : ((lateChunks.foldl (processAnthropicSSEChunk lateLib none)
      ({}, [])).1.parsed).fullText = lit "late" := by
    decide +kernel
  have hone : ((processAnthropicSSEChunk lateLib none ({}, [])
      lateChunks.flatten).1.parsed).fullText = [] := by
    decide +kernel
  rw [htwo, hone] at hcuts
  cases hcuts

end JiuwenCore.Models.Anthropic
