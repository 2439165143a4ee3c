import JiuwenCore.Models.AnthropicStream

/-!
# What the lines of an Anthropic stream say

Each line is one event, read without looking at the context, and what the parser
keeps of it is a function of the event. Before a `message_stop` cuts do not
matter. Behind it the parser starts over with every chunk, so they do matter
unless nothing there counts (`splits_agree_iff_quiet`).
-/

namespace JiuwenCore.Models.Anthropic

/-! ## Events -/

/-- The events that change what is parsed. -/
inductive Event where
  | text (s : Str)
  | openTool (tu : PartialToolUse)
  | fragment (index : Int) (s : Str)
  | stopReason (reason : Str)
  | other
  deriving DecidableEq, Repr

def startEvent (lib : JsonLib) (data : Json) : Event :=
  let block := data.memberOrNull (lit "content_block")
  if (data.value (Json.getInt lib) (lit "index") (-1)).isSome ∧
      block.value Json.getString (lit "type") [] = some (lit "tool_use") then
    (readToolUse lib block).elim .other .openTool
  else .other

def textEvent (delta : Json) : Event :=
  match delta.value Json.getString (lit "text") [] with
  | none | some [] => .other
  | some text => .text text

def fragmentEvent (index : Int32) (delta : Json) : Event :=
  match delta.value Json.getString (lit "partial_json") [] with
  | none | some [] => .other
  | some s => .fragment index.toInt s

def deltaEvent (lib : JsonLib) (data : Json) : Event :=
  let delta := data.memberOrNull (lit "delta")
  match data.value (Json.getInt lib) (lit "index") (-1) with
  | none => .other
  | some index =>
      if delta.value Json.getString (lit "type") [] = some (lit "text_delta") then textEvent delta
      else if delta.value Json.getString (lit "type") [] = some (lit "input_json_delta") then
        fragmentEvent index delta
      else .other

def messageDeltaEvent (data : Json) : Event :=
  match (data.member (lit "delta")).bind (Json.member (lit "stop_reason")) with
  | some (.str reason) => .stopReason reason
  | _ => .other

/-- The event of a line. -/
def readEvent (lib : JsonLib) (line : Str) : Event :=
  match readData lib line with
  | none => .other
  | some (type, data) =>
      if type = lit "content_block_start" then startEvent lib data
      else if type = lit "content_block_delta" then deltaEvent lib data
      else if type = lit "message_delta" then messageDeltaEvent data
      else .other

/-- A `message_stop` line. -/
def isMessageStop (lib : JsonLib) (line : Str) : Bool :=
  (readData lib line).any fun event => event.1 = lit "message_stop"

/-! ## What the parser keeps -/

/-- What is read of the context when the stream has ended. -/
structure Parsed where
  fullText : Str := []
  finishReason : Str := []
  toolUses : List PartialToolUse := []
  onChunkCalls : List Str := []
  deriving DecidableEq, Repr

def StreamContext.parsed (ctx : StreamContext) : Parsed where
  fullText := ctx.fullText
  finishReason := ctx.finishReason
  toolUses := ctx.toolUses
  onChunkCalls := ctx.onChunkCalls

/-- One event; `called` tells whether there is a callback. -/
def Parsed.apply (called : Bool) (p : Parsed) : Event → Parsed
  | .text s =>
      { p with
        fullText := p.fullText ++ s
        onChunkCalls := if called then p.onChunkCalls ++ [s] else p.onChunkCalls }
  | .openTool tu => { p with toolUses := p.toolUses ++ [tu] }
  | .fragment index s => { p with toolUses := appendInput p.toolUses index s }
  | .stopReason reason => { p with finishReason := reason }
  | .other => p

theorem handleBlockStart_parsed (lib : JsonLib) (called : Bool) (ctx : StreamContext)
    (data : Json) :
    (caught (handleBlockStart lib ctx data)).parsed =
      ctx.parsed.apply called (startEvent lib data) := by
  unfold handleBlockStart startEvent
  cases data.value (Json.getInt lib) (lit "index") (-1) with
  | none => rfl
  | some index =>
      dsimp only
      cases (data.memberOrNull (lit "content_block")).value Json.getString (lit "type") [] with
      | none => rfl
      | some blockType =>
          by_cases htype : blockType = lit "tool_use"
          · simp only [htype, if_true, Option.isSome_some, and_self]
            cases readToolUse lib (data.memberOrNull (lit "content_block")) <;> rfl
          · simp only [htype, if_false, Option.some.injEq, and_false]
            rfl

theorem handleTextDelta_parsed (onChunk : OnChunk) (ctx : StreamContext) (delta : Json) :
    (caught (handleTextDelta onChunk ctx delta)).parsed =
      ctx.parsed.apply onChunk.isSome (textEvent delta) := by
  unfold handleTextDelta textEvent
  cases delta.value Json.getString (lit "text") [] with
  | none => rfl
  | some text =>
      cases text with
      | nil => rfl
      | cons c rest =>
          dsimp only
          rw [if_neg (List.cons_ne_nil c rest)]
          cases onChunk with
          | none => rfl
          | some throws =>
              unfold emit
              dsimp only
              split <;> rfl

theorem handleInputDelta_parsed (called : Bool) (ctx : StreamContext) (index : Int32)
    (delta : Json) :
    (caught (handleInputDelta ctx index delta)).parsed =
      ctx.parsed.apply called (fragmentEvent index delta) := by
  unfold handleInputDelta fragmentEvent
  cases delta.value Json.getString (lit "partial_json") [] with
  | none => rfl
  | some s =>
      cases s with
      | nil => rfl
      | cons c rest =>
          dsimp only
          rw [if_neg (List.cons_ne_nil c rest)]
          rfl

theorem handleBlockDelta_parsed (lib : JsonLib) (onChunk : OnChunk) (ctx : StreamContext)
    (data : Json) :
    (caught (handleBlockDelta lib onChunk ctx data)).parsed =
      ctx.parsed.apply onChunk.isSome (deltaEvent lib data) := by
  unfold handleBlockDelta deltaEvent
  cases data.value (Json.getInt lib) (lit "index") (-1) with
  | none => rfl
  | some index =>
      dsimp only
      cases (data.memberOrNull (lit "delta")).value Json.getString (lit "type") [] with
      | none => rfl
      | some deltaType =>
          simp only [Option.some.injEq]
          split
          · exact handleTextDelta_parsed onChunk ctx _
          · split
            · exact handleInputDelta_parsed onChunk.isSome ctx index _
            · rfl

theorem handleMessageDelta_parsed (called : Bool) (ctx : StreamContext) (data : Json) :
    (caught (handleMessageDelta ctx data)).parsed =
      ctx.parsed.apply called (messageDeltaEvent data) := by
  unfold handleMessageDelta messageDeltaEvent
  cases (data.member (lit "delta")).bind (Json.member (lit "stop_reason")) with
  | none => rfl
  | some reason => cases reason <;> rfl

theorem handleEvent_parsed (lib : JsonLib) (onChunk : OnChunk) (ctx : StreamContext)
    {line type : Str} {data : Json} (h : readData lib line = some (type, data)) :
    (caught (handleEvent lib onChunk ctx type data)).parsed =
      ctx.parsed.apply onChunk.isSome (readEvent lib line) := by
  unfold handleEvent readEvent
  rw [h]
  dsimp only
  split
  · exact handleBlockStart_parsed lib onChunk.isSome ctx data
  · split
    · exact handleBlockDelta_parsed lib onChunk ctx data
    · split
      · rename_i hstop
        rw [if_neg (by rw [hstop]; decide)]
        rfl
      · split
        · exact handleMessageDelta_parsed onChunk.isSome ctx data
        · rfl

/-- One line does to the parsed stream what its event says. -/
theorem processLine_parsed (lib : JsonLib) (onChunk : OnChunk) (ctx : StreamContext)
    (line : Str) :
    (processLine lib onChunk ctx line).1.parsed =
      ctx.parsed.apply onChunk.isSome (readEvent lib line) := by
  unfold processLine
  cases h : readData lib line with
  | none => simp [readEvent, h, Parsed.apply]
  | some event =>
      rcases event with ⟨type, data⟩
      dsimp only
      split
      · rename_i hstop
        subst hstop
        have hother : readEvent lib line = .other := by
          unfold readEvent
          rw [h]
          dsimp only
          rw [if_neg (by decide), if_neg (by decide), if_neg (by decide)]
        rw [hother]
        rfl
      · exact handleEvent_parsed lib onChunk ctx h

theorem processLine_stop (lib : JsonLib) (onChunk : OnChunk) (ctx : StreamContext) (line : Str) :
    (processLine lib onChunk ctx line).2 = isMessageStop lib line := by
  unfold processLine isMessageStop
  cases readData lib line with
  | none => rfl
  | some event =>
      dsimp only [Option.any_some]
      split
      · rename_i hstop
        rw [hstop, decide_eq_true rfl]
      · rename_i hstop
        rw [decide_eq_false hstop]

theorem processLine_keep (lib : JsonLib) (onChunk : OnChunk) (ctx : StreamContext) (line : Str)
    (h : isMessageStop lib line = true) : (processLine lib onChunk ctx line).1 = ctx := by
  unfold isMessageStop at h
  unfold processLine
  cases hread : readData lib line with
  | none => rfl
  | some event =>
      rw [hread, Option.any_some, decide_eq_true_iff] at h
      dsimp only
      rw [if_pos h]

/-- The lines of a stretch of the stream, one event after another. -/
def Parsed.run (called : Bool) (p : Parsed) (events : List Event) : Parsed :=
  events.foldl (Parsed.apply called) p

theorem run_parsed (lib : JsonLib) (onChunk : OnChunk) (ctx : StreamContext) (ls : List Str) :
    (LineFeed.run (processLine lib onChunk) ctx ls).parsed =
      ctx.parsed.run onChunk.isSome (ls.map (readEvent lib)) := by
  induction ls generalizing ctx with
  | nil => rfl
  | cons line more ih =>
      have hline := processLine_parsed lib onChunk ctx line
      have hmore := ih (processLine lib onChunk ctx line).1
      rw [hline] at hmore
      exact hmore

/-! ## What does not count -/

/-- The last stop reason of the events. -/
def lastStopReason : List Event → Option Str
  | [] => none
  | .stopReason reason :: rest => some ((lastStopReason rest).getD reason)
  | _ :: rest => lastStopReason rest

/-- The number of tool uses the events open. -/
def openedTools (events : List Event) : Nat :=
  events.countP fun event => match event with
    | .openTool _ => true
    | _ => false

/-- An event that is neither text, nor opens a tool use, nor adds to one of the
first `tools` tool uses. -/
def Event.Silent (tools : Nat) : Event → Prop
  | .text _ => False
  | .openTool _ => False
  | .fragment index _ => ¬ (0 ≤ index ∧ index < tools)
  | .stopReason _ | .other => True

/-- Events that change nothing when `tools` tool uses are open and the stop reason
is `reason`. -/
def Quiet (tools : Nat) (reason : Str) (events : List Event) : Prop :=
  (∀ event ∈ events, event.Silent tools) ∧ ∀ last, lastStopReason events = some last → last = reason

theorem run_finishReason (called : Bool) (p : Parsed) (events : List Event) :
    (p.run called events).finishReason = (lastStopReason events).getD p.finishReason := by
  induction events generalizing p with
  | nil => rfl
  | cons event rest ih =>
      have h := ih (p.apply called event)
      unfold Parsed.run at h ⊢
      rw [List.foldl_cons, h]
      cases event <;> simp [Parsed.apply, lastStopReason]

theorem appendInput_length (toolUses : List PartialToolUse) (index : Int) (s : Str) :
    (appendInput toolUses index s).length = toolUses.length := by
  unfold appendInput
  split
  · exact List.length_modify _ _ _
  · rfl

theorem run_toolUses_length (called : Bool) (p : Parsed) (events : List Event) :
    (p.run called events).toolUses.length = p.toolUses.length + openedTools events := by
  induction events generalizing p with
  | nil => rfl
  | cons event rest ih =>
      have h := ih (p.apply called event)
      unfold Parsed.run at h ⊢
      rw [List.foldl_cons, h]
      cases event <;>
        simp [Parsed.apply, openedTools, appendInput_length, Nat.add_assoc, Nat.add_comm]

/-- Silent events change at most the stop reason. -/
theorem run_silent (called : Bool) (p : Parsed) (events : List Event)
    (h : ∀ event ∈ events, event.Silent p.toolUses.length) :
    p.run called events =
      { p with finishReason := (lastStopReason events).getD p.finishReason } := by
  induction events generalizing p with
  | nil => rfl
  | cons event rest ih =>
      have hrest : ∀ event ∈ rest, event.Silent p.toolUses.length := fun e he =>
        h e (List.mem_cons_of_mem event he)
      have hevent := h event List.mem_cons_self
      cases event with
      | text s => exact absurd hevent id
      | openTool tu => exact absurd hevent id
      | fragment index s =>
          have hsame : p.apply called (.fragment index s) = p := by
            simp only [Parsed.apply, appendInput, if_neg hevent]
          rw [Parsed.run, List.foldl_cons, hsame]
          exact ih p hrest
      | stopReason reason =>
          exact ih (p.apply called (.stopReason reason)) hrest
      | other => exact ih p hrest

/-- Everything that only ever grows, counted. -/
def Parsed.size (p : Parsed) : Nat :=
  p.fullText.length + p.toolUses.length + (p.toolUses.map (·.inputJson.length)).sum

/-- Texts and fragments of real events are never empty. -/
def Event.Proper : Event → Prop
  | .text s => s ≠ []
  | .fragment _ s => s ≠ []
  | _ => True

theorem sum_modify_input (toolUses : List PartialToolUse) (i : Nat) (s : Str)
    (h : i < toolUses.length) :
    ((toolUses.modify i fun tu => { tu with inputJson := tu.inputJson ++ s }).map
      (·.inputJson.length)).sum = (toolUses.map (·.inputJson.length)).sum + s.length := by
  induction toolUses generalizing i with
  | nil => simp at h
  | cons tu rest ih =>
      cases i with
      | zero =>
          simp only [List.modify_zero_cons, List.map_cons, List.sum_cons, List.length_append]
          omega
      | succ i =>
          have hi := ih i (by simpa using h)
          simp only [List.modify_succ_cons, List.map_cons, List.sum_cons, hi]
          omega

theorem size_apply_le (called : Bool) (p : Parsed) (event : Event) :
    p.size ≤ (p.apply called event).size := by
  cases event with
  | text s =>
      simp only [Parsed.size, Parsed.apply, List.length_append]
      omega
  | openTool tu =>
      simp only [Parsed.size, Parsed.apply, List.length_append, List.map_append, List.sum_append]
      omega
  | fragment index s =>
      simp only [Parsed.size, Parsed.apply, appendInput]
      split
      · rename_i hindex
        rw [List.length_modify, sum_modify_input _ _ _ (by omega)]
        omega
      · exact Nat.le_refl _
  | stopReason reason => exact Nat.le_refl _
  | other => exact Nat.le_refl _

/-- An event that is not silent makes something grow. -/
theorem silent_of_size_apply (called : Bool) (p : Parsed) {event : Event} (hproper : event.Proper)
    (h : (p.apply called event).size = p.size) : event.Silent p.toolUses.length := by
  cases event with
  | text s =>
      simp only [Parsed.size, Parsed.apply, List.length_append] at h
      exact absurd (List.eq_nil_of_length_eq_zero (by omega)) hproper
  | openTool tu =>
      simp only [Parsed.size, Parsed.apply, List.length_append, List.map_append, List.sum_append,
        List.length_singleton] at h
      omega
  | fragment index s =>
      intro hindex
      simp only [Parsed.size, Parsed.apply, appendInput, if_pos hindex, List.length_modify] at h
      rw [sum_modify_input _ _ _ (by omega)] at h
      exact absurd (List.eq_nil_of_length_eq_zero (by omega)) hproper
  | stopReason reason => trivial
  | other => trivial

theorem size_run_le (called : Bool) (p : Parsed) (events : List Event) :
    p.size ≤ (p.run called events).size := by
  induction events generalizing p with
  | nil => exact Nat.le_refl _
  | cons event rest ih => exact Nat.le_trans (size_apply_le called p event) (ih _)

theorem silent_of_size_run (called : Bool) (p : Parsed) {events : List Event}
    (hproper : ∀ event ∈ events, event.Proper) (h : (p.run called events).size = p.size) :
    ∀ event ∈ events, event.Silent p.toolUses.length := by
  induction events generalizing p with
  | nil => simp
  | cons event rest ih =>
      have hstep := size_apply_le called p event
      have hrun := size_run_le called (p.apply called event) rest
      change ((p.apply called event).run called rest).size = p.size at h
      have hsilent := silent_of_size_apply called p (hproper event List.mem_cons_self) (by omega)
      have hlength : (p.apply called event).toolUses.length = p.toolUses.length := by
        cases event with
        | openTool tu => exact absurd hsilent id
        | fragment index s => exact appendInput_length p.toolUses index s
        | _ => rfl
      have hrest := ih (p.apply called event)
        (fun e he => hproper e (List.mem_cons_of_mem event he)) (by omega)
      rw [hlength] at hrest
      intro e he
      rcases List.mem_cons.mp he with rfl | he
      · exact hsilent
      · exact hrest e he

/-- Proper events leave what is parsed alone exactly when they are quiet. -/
theorem run_eq_self_iff (called : Bool) (p : Parsed) {events : List Event}
    (hproper : ∀ event ∈ events, event.Proper) :
    p.run called events = p ↔ Quiet p.toolUses.length p.finishReason events := by
  constructor
  · intro h
    refine ⟨silent_of_size_run called p hproper (by rw [h]), fun last hlast => ?_⟩
    have hreason := run_finishReason called p events
    rw [h, hlast] at hreason
    exact hreason.symm
  · rintro ⟨hsilent, hreason⟩
    rw [run_silent called p events hsilent]
    cases hlast : lastStopReason events with
    | none => rfl
    | some last => rw [Option.getD_some, hreason last hlast]

theorem readEvent_proper (lib : JsonLib) (line : Str) : (readEvent lib line).Proper := by
  have hstart : ∀ data, (startEvent lib data).Proper := by
    intro data
    unfold startEvent
    dsimp only
    split
    · cases readToolUse lib (data.memberOrNull (lit "content_block")) <;> trivial
    · trivial
  have hdelta : ∀ data, (deltaEvent lib data).Proper := by
    intro data
    unfold deltaEvent textEvent fragmentEvent
    dsimp only
    split
    · trivial
    · split_ifs
      · split
        · trivial
        · trivial
        · rename_i text hne _
          exact fun hnil => hne (by rw [hnil])
      · split
        · trivial
        · trivial
        · rename_i s hne _
          exact fun hnil => hne (by rw [hnil])
      · trivial
  have hmessage : ∀ data, (messageDeltaEvent data).Proper := by
    intro data
    unfold messageDeltaEvent
    split <;> trivial
  unfold readEvent
  cases readData lib line with
  | none => trivial
  | some event =>
      rcases event with ⟨type, data⟩
      dsimp only
      split_ifs
      · exact hstart data
      · exact hdelta data
      · exact hmessage data
      · trivial

end JiuwenCore.Models.Anthropic
