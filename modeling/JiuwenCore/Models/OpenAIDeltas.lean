import JiuwenCore.Models.OpenAIStream

/-!
# The tool calls of an OpenAI stream

The stream parser drops nothing, so it does not notice how the stream is cut.
Each slot of `partialToolCalls` is read off the deltas the lines deliver: the
fragments of its index joined in the order they came in, whatever other indices
came in between.
-/

namespace JiuwenCore.Models.OpenAI

/-! ## Deltas -/

/-- What one entry of `tool_calls` says. -/
structure ToolCallDelta where
  index : Int
  id : Option Str
  name : Str
  arguments : Str
  deriving DecidableEq, Repr

/-- Reads an entry; `none` where the reading of its index throws. -/
def readToolCallDelta (lib : JsonLib) (tc : Json) : Option ToolCallDelta :=
  (tc.value (Json.getInt lib) (lit "index") 0).map fun idx =>
    let fn := tc.member (lit "function")
    { index := idx.toInt
      id := tc.stringMember (lit "id")
      name := (fn.bind fun fn => fn.stringMember (lit "name")).getD []
      arguments := (fn.bind fun fn => fn.stringMember (lit "arguments")).getD [] }

/-- The entries of one line, up to the first that throws. -/
def readToolCallDeltas (lib : JsonLib) : List Json → List ToolCallDelta
  | [] => []
  | tc :: rest =>
      match readToolCallDelta lib tc with
      | none => []
      | some delta => delta :: readToolCallDeltas lib rest

/-- The entries under a `delta`. A callback that throws on the text of the line
keeps its tool calls from being read. -/
def deltaDeltas (lib : JsonLib) (onChunk : OnChunk) (ctx : StreamContext) (delta : Json) :
    List ToolCallDelta :=
  match handleContent onChunk ctx delta, delta.member (lit "tool_calls") with
  | .ok _, some (.arr toolCalls) => readToolCallDeltas lib toolCalls
  | _, _ => []

/-- The deltas a line delivers. -/
def lineDeltas (lib : JsonLib) (onChunk : OnChunk) (ctx : StreamContext) (line : Str) :
    List ToolCallDelta :=
  if (lit "data: ").isPrefixOf line ∧ line.drop 6 ≠ lit "[DONE]" then
    match (readChoice lib (line.drop 6)).bind (Json.member (lit "delta")) with
    | some delta => deltaDeltas lib onChunk ctx delta
    | none => []
  else []

/-- The deltas of lines handled one after another. -/
def streamDeltas (lib : JsonLib) (onChunk : OnChunk) (ctx : StreamContext) :
    List Str → List ToolCallDelta
  | [] => []
  | line :: more =>
      lineDeltas lib onChunk ctx line ++
        streamDeltas lib onChunk (processLine lib onChunk ctx line) more

/-! ## Slots -/

def ToolCallDelta.fill (delta : ToolCallDelta) (slot : PartialToolCall) : PartialToolCall where
  id := delta.id.getD slot.id
  name := slot.name ++ delta.name
  argumentsJson := slot.argumentsJson ++ delta.arguments

abbrev Slots := OrderedMap Int PartialToolCall

def applyDelta (slots : Slots) (delta : ToolCallDelta) : Slots :=
  slots.update delta.index {} delta.fill

theorem fillSlot_of_readToolCallDelta {lib : JsonLib} {tc : Json} {delta : ToolCallDelta}
    (h : readToolCallDelta lib tc = some delta) : fillSlot tc = delta.fill := by
  unfold readToolCallDelta at h
  rw [Option.map_eq_some_iff] at h
  rcases h with ⟨idx, _, rfl⟩
  funext slot
  unfold fillSlot ToolCallDelta.fill
  dsimp only
  cases tc.stringMember (lit "id") with
  | none =>
      cases tc.member (lit "function") with
      | none => simp
      | some fn =>
          dsimp only [Option.bind_some]
          cases fn.stringMember (lit "name") <;> cases fn.stringMember (lit "arguments") <;> simp
  | some id =>
      cases tc.member (lit "function") with
      | none => simp
      | some fn =>
          dsimp only [Option.bind_some]
          cases fn.stringMember (lit "name") <;> cases fn.stringMember (lit "arguments") <;> simp

theorem handleToolCalls_slots (lib : JsonLib) (ctx : StreamContext) (toolCalls : List Json) :
    (caught (handleToolCalls lib ctx toolCalls)).partialToolCalls =
      (readToolCallDeltas lib toolCalls).foldl applyDelta ctx.partialToolCalls := by
  induction toolCalls generalizing ctx with
  | nil => rfl
  | cons tc rest ih =>
      cases hidx : tc.value (Json.getInt lib) (lit "index") 0 with
      | none =>
          have hread : readToolCallDelta lib tc = none := by simp [readToolCallDelta, hidx]
          rw [handleToolCalls, hidx, readToolCallDeltas, hread]
          rfl
      | some idx =>
          obtain ⟨delta, hread⟩ : ∃ delta, readToolCallDelta lib tc = some delta := by
            simp [readToolCallDelta, hidx]
          have hindex : delta.index = idx.toInt := by
            unfold readToolCallDelta at hread
            rw [hidx, Option.map_some, Option.some.injEq] at hread
            rw [← hread]
          rw [handleToolCalls, hidx, readToolCallDeltas, hread]
          dsimp only
          rw [fillSlot_of_readToolCallDelta hread, ← hindex, ih]
          rfl

theorem handleContent_slots (onChunk : OnChunk) (ctx : StreamContext) (delta : Json) :
    (caught (handleContent onChunk ctx delta)).partialToolCalls = ctx.partialToolCalls := by
  unfold handleContent
  cases delta.stringMember (lit "content") with
  | none => rfl
  | some content =>
      dsimp only
      split
      · rfl
      · cases (emit onChunk ctx.onChunkCalls content).2 <;> rfl

theorem handleFinishReason_slots (ctx : StreamContext) (choice : Json) :
    (caught (handleFinishReason ctx choice)).partialToolCalls = ctx.partialToolCalls := by
  unfold handleFinishReason
  split <;> rfl

theorem handleDelta_slots (lib : JsonLib) (onChunk : OnChunk) (ctx : StreamContext)
    (delta : Json) :
    (caught (handleDelta lib onChunk ctx delta)).partialToolCalls =
      (deltaDeltas lib onChunk ctx delta).foldl applyDelta ctx.partialToolCalls := by
  have hcontent := handleContent_slots onChunk ctx delta
  unfold handleDelta deltaDeltas
  rw [caught_bind]
  cases hc : handleContent onChunk ctx delta with
  | error ctx' =>
      rw [hc] at hcontent
      exact hcontent
  | ok ctx' =>
      rw [hc] at hcontent
      change ctx'.partialToolCalls = _ at hcontent
      rw [← hcontent]
      cases htc : delta.member (lit "tool_calls") with
      | none => rfl
      | some j =>
          cases j with
          | arr toolCalls => exact handleToolCalls_slots lib ctx' toolCalls
          | _ => rfl

theorem handleChoice_slots (lib : JsonLib) (onChunk : OnChunk) (ctx : StreamContext)
    (choice : Json) :
    (caught (handleChoice lib onChunk ctx choice)).partialToolCalls =
      (match choice.member (lit "delta") with
        | some delta => deltaDeltas lib onChunk ctx delta
        | none => []).foldl applyDelta ctx.partialToolCalls := by
  unfold handleChoice
  rw [caught_bind]
  cases choice.member (lit "delta") with
  | none => exact handleFinishReason_slots ctx choice
  | some delta =>
      have hdelta := handleDelta_slots lib onChunk ctx delta
      rw [Option.elim_some]
      cases hd : handleDelta lib onChunk ctx delta with
      | error ctx' =>
          rw [hd] at hdelta
          exact hdelta
      | ok ctx' =>
          rw [hd] at hdelta
          exact (handleFinishReason_slots ctx' choice).trans hdelta

/-- One line fills the slots with the deltas it delivers. -/
theorem processLine_slots (lib : JsonLib) (onChunk : OnChunk) (ctx : StreamContext) (line : Str) :
    (processLine lib onChunk ctx line).partialToolCalls =
      (lineDeltas lib onChunk ctx line).foldl applyDelta ctx.partialToolCalls := by
  unfold processLine lineDeltas
  by_cases hdata : (lit "data: ").isPrefixOf line = true
  · by_cases hdone : line.drop 6 = lit "[DONE]"
    · simp [hdata, hdone]
    · simp only [hdata, if_true, ne_eq, hdone, not_false_eq_true, and_self, if_false]
      cases readChoice lib (line.drop 6) with
      | none => rfl
      | some choice => exact handleChoice_slots lib onChunk ctx choice
  · simp [hdata]

/-- Lines handled one after another fill the slots with all their deltas. -/
theorem run_slots (lib : JsonLib) (onChunk : OnChunk) (ctx : StreamContext) (ls : List Str) :
    (ls.foldl (processLine lib onChunk) ctx).partialToolCalls =
      (streamDeltas lib onChunk ctx ls).foldl applyDelta ctx.partialToolCalls := by
  induction ls generalizing ctx with
  | nil => rfl
  | cons line more ih =>
      rw [List.foldl_cons, ih, processLine_slots, streamDeltas, List.foldl_append]

/-! ## Fragments by index -/

/-- The fragments of one slot joined: the last id, and the names and arguments
one behind the other. -/
def assemble (deltas : List ToolCallDelta) : PartialToolCall :=
  deltas.foldl (fun slot delta => delta.fill slot) {}

/-- Whatever comes in between, a slot holds the fragments of its own index. -/
theorem get?_applyDeltas (deltas : List ToolCallDelta) (slots : Slots) (index : Int) :
    (deltas.foldl applyDelta slots).get? index =
      (deltas.filter fun delta => delta.index = index).foldl
        (fun slot delta => some (delta.fill (slot.getD {}))) (slots.get? index) := by
  induction deltas generalizing slots with
  | nil => rfl
  | cons delta rest ih =>
      rw [List.foldl_cons, ih, applyDelta, OrderedMap.get?_update]
      by_cases h : index = delta.index
      · rw [if_pos h, List.filter_cons_of_pos (by simp [h]), List.foldl_cons, h]
      · rw [if_neg h, List.filter_cons_of_neg (by simpa using Ne.symm h)]

theorem mem_keys_applyDeltas (deltas : List ToolCallDelta) (slots : Slots) (index : Int) :
    index ∈ (deltas.foldl applyDelta slots).keys ↔
      (∃ delta ∈ deltas, delta.index = index) ∨ index ∈ slots.keys := by
  induction deltas generalizing slots with
  | nil => simp
  | cons delta rest ih =>
      rw [List.foldl_cons, ih, applyDelta, OrderedMap.mem_keys_update]
      rw [List.exists_mem_cons_iff, or_assoc, or_left_comm, @eq_comm _ index delta.index]

theorem foldl_fill_some (deltas : List ToolCallDelta) (slot : PartialToolCall) :
    deltas.foldl (fun slot delta => some (delta.fill (slot.getD {}))) (some slot) =
      some (deltas.foldl (fun slot delta => delta.fill slot) slot) := by
  induction deltas generalizing slot with
  | nil => rfl
  | cons delta rest ih => exact ih (delta.fill slot)

/-- The slots of a stream, in increasing order of their indices. -/
theorem entries_applyDeltas (deltas : List ToolCallDelta) :
    (deltas.foldl applyDelta OrderedMap.empty).entries =
      (deltas.foldl applyDelta OrderedMap.empty).keys.map fun index =>
        (index, assemble (deltas.filter fun delta => delta.index = index)) := by
  refine OrderedMap.entries_eq _ _ fun index hindex => ?_
  rw [mem_keys_applyDeltas] at hindex
  rw [get?_applyDeltas]
  rcases hindex with ⟨delta, hmem, heq⟩ | hnil
  · have hin : delta ∈ deltas.filter fun delta => delta.index = index := by
      simp [hmem, heq]
    obtain ⟨first, rest, hcons⟩ := List.exists_cons_of_ne_nil (List.ne_nil_of_mem hin)
    rw [hcons, List.foldl_cons]
    exact foldl_fill_some rest (first.fill {})
  · simp [OrderedMap.keys, OrderedMap.empty] at hnil

theorem assemble_append (deltas : List ToolCallDelta) (slot : PartialToolCall) :
    deltas.foldl (fun slot delta => delta.fill slot) slot =
      { id := ((deltas.filterMap (·.id)).getLast?).getD slot.id
        name := slot.name ++ deltas.flatMap (·.name)
        argumentsJson := slot.argumentsJson ++ deltas.flatMap (·.arguments) } := by
  induction deltas generalizing slot with
  | nil => simp
  | cons delta rest ih =>
      rw [List.foldl_cons, ih]
      cases hid : delta.id with
      | none => simp [ToolCallDelta.fill, hid]
      | some id => simp [ToolCallDelta.fill, hid, List.getLast?_cons]

/-- The fragments of a slot one behind the other, under the last id it was given. -/
theorem assemble_eq (deltas : List ToolCallDelta) :
    assemble deltas =
      { id := ((deltas.filterMap (·.id)).getLast?).getD []
        name := deltas.flatMap (·.name)
        argumentsJson := deltas.flatMap (·.arguments) } :=
  assemble_append deltas {}

/-! ## Whole streams -/

/-- The stream parser does not notice how the stream is cut into chunks. -/
theorem processSSEChunk_chunks (lib : JsonLib) (onChunk : OnChunk) (chunks : List Str) :
    chunks.foldl (processSSEChunk lib onChunk) ({}, []) =
      processSSEChunk lib onChunk ({}, []) chunks.flatten := by
  have hstep : ∀ (ctx : StreamContext) (line : Str),
      (processLine lib onChunk ctx line, false).2 = false := fun _ _ => rfl
  exact LineFeed.foldl_feed 10 _ hstep ({}, []) rfl chunks

/-- The deltas a stream delivers, read from its complete lines. -/
def deltasOf (lib : JsonLib) (onChunk : OnChunk) (stream : Str) : List ToolCallDelta :=
  streamDeltas lib onChunk {} (LineFeed.lines 10 stream)

theorem consume_processLine (lib : JsonLib) (onChunk : OnChunk) (ctx : StreamContext)
    (ls : List Str) :
    (LineFeed.consume (fun ctx line => (processLine lib onChunk ctx line, false)) ctx ls).1 =
      ls.foldl (processLine lib onChunk) ctx := by
  induction ls generalizing ctx with
  | nil => rfl
  | cons line more ih => exact ih (processLine lib onChunk ctx line)

theorem stream_slots (lib : JsonLib) (onChunk : OnChunk) (stream : Str) :
    (processSSEChunk lib onChunk ({}, []) stream).1.partialToolCalls =
      (deltasOf lib onChunk stream).foldl applyDelta OrderedMap.empty := by
  unfold processSSEChunk deltasOf
  rw [LineFeed.feed_eq]
  dsimp only
  rw [consume_processLine, run_slots]
  rfl

/-- The tool call made of the deltas of one index. -/
def callOf (deltas : List ToolCallDelta) : ToolCall where
  id := ((deltas.filterMap (·.id)).getLast?).getD []
  name := deltas.flatMap (·.name)
  argumentsJson :=
    if deltas.flatMap (·.arguments) = [] then lit "\x7b\x7d" else deltas.flatMap (·.arguments)

/-- `calls` are the tool calls of the deltas, one for each index, in increasing
order of the indices. -/
def CallsByIndex (call : List ToolCallDelta → ToolCall) (deltas : List ToolCallDelta)
    (calls : List ToolCall) : Prop :=
  ∃ indices : List Int, indices.Pairwise (· < ·) ∧
    (∀ index, index ∈ indices ↔ ∃ delta ∈ deltas, delta.index = index) ∧
    calls = indices.map fun index => call (deltas.filter fun delta => delta.index = index)

theorem toolCallsOf_stream (lib : JsonLib) (onChunk : OnChunk) (stream : Str) :
    CallsByIndex callOf (deltasOf lib onChunk stream)
      (toolCallsOf (processSSEChunk lib onChunk ({}, []) stream).1) := by
  refine ⟨((deltasOf lib onChunk stream).foldl applyDelta OrderedMap.empty).keys,
    OrderedMap.sorted _, fun index => ?_, ?_⟩
  · rw [mem_keys_applyDeltas]
    simp [OrderedMap.keys, OrderedMap.empty]
  · unfold toolCallsOf
    rw [stream_slots, entries_applyDeltas, List.map_map]
    refine List.map_congr_left fun index _ => ?_
    simp only [Function.comp_apply, assemble_eq, callOf]

/-- However the stream is cut, the parser ends in the same context with the same
bytes unread and has called `onChunk` with the same texts; and the tool calls of
the response are, in increasing order of their indices, the fragments of each
index joined, where empty arguments are reported as an empty object. -/
theorem stream_cuts_and_calls (lib : JsonLib) (onChunk : OnChunk) :
    (∀ chunks : List Str, chunks.foldl (processSSEChunk lib onChunk) ({}, []) =
      processSSEChunk lib onChunk ({}, []) chunks.flatten) ∧
    ∀ transfer : Transfer, transfer.Completed →
      CallsByIndex callOf (deltasOf lib onChunk (transfer.chunks.map (·.1)).flatten)
        (doInvokeOnce lib true onChunk transfer).toolCalls := by
  refine ⟨processSSEChunk_chunks lib onChunk, fun transfer hcompleted => ?_⟩
  unfold doInvokeOnce
  rw [postStream_completed _ _ _ hcompleted.1, processSSEChunk_chunks]
  dsimp only
  rw [respond_completed hcompleted]
  exact toolCallsOf_stream lib onChunk _

/-- An event that opens a tool call and never sends an argument. -/
def bareCallText : Str :=
  lit "\x7b\"choices\":[\x7b\"delta\":\x7b\"tool_calls\":[\x7b\"index\":0,\"id\":\"c\"," ++
    lit "\"function\":\x7b\"name\":\"f\"\x7d\x7d]\x7d\x7d]\x7d"

def bareCallEvent : Json :=
  .obj [(lit "choices", .arr [.obj [(lit "delta", .obj [(lit "tool_calls", .arr
    [.obj [(lit "index", .int 0), (lit "id", .str (lit "c")),
      (lit "function", .obj [(lit "name", .str (lit "f"))])]])])]])]

/-- A library that knows this one event. -/
def bareCallLib : JsonLib where
  parse := fun s => if s = bareCallText then some bareCallEvent else none
  dump := fun _ => none
  dumpIndented := fun _ _ => none
  floatToInt := fun _ => 0

def bareCallTransfer : Transfer where
  chunks := [(lit "data: " ++ bareCallText.take 20, false), (bareCallText.drop 20 ++ [10], false)]
  response := { statusCode := 200 }

theorem bareCallTransfer_completed : bareCallTransfer.Completed := by
  unfold Transfer.Completed
  decide

/-- Without argument fragments the arguments of the tool call are not empty. -/
theorem calls_not_concatenations :
    ¬ ∀ (lib : JsonLib) (onChunk : OnChunk) (transfer : Transfer), transfer.Completed →
      CallsByIndex
        (fun deltas => { callOf deltas with argumentsJson := deltas.flatMap (·.arguments) })
        (deltasOf lib onChunk (transfer.chunks.map (·.1)).flatten)
        (doInvokeOnce lib true onChunk transfer).toolCalls := by
  intro h
  obtain ⟨indices, _, _, hcalls⟩ := h bareCallLib none bareCallTransfer bareCallTransfer_completed
  have hdeltas : deltasOf bareCallLib none (bareCallTransfer.chunks.map (·.1)).flatten =
      [⟨0, some (lit "c"), lit "f", []⟩] := by
    decide +kernel
  have hresponse : (doInvokeOnce bareCallLib true none bareCallTransfer).toolCalls =
      [⟨lit "c", lit "f", lit "\x7b\x7d"⟩] := by
    decide +kernel
  rw [hdeltas, hresponse] at hcalls
  have hmem := hcalls ▸ List.mem_singleton_self (⟨lit "c", lit "f", lit "\x7b\x7d"⟩ : ToolCall)
  obtain ⟨index, _, hcall⟩ := List.mem_map.mp hmem
  have harguments := congrArg ToolCall.argumentsJson hcall
  by_cases hindex : (0 : Int) = index
  · rw [List.filter_cons_of_pos (by simpa using hindex)] at harguments
    cases harguments
  · rw [List.filter_cons_of_neg (by simpa using hindex)] at harguments
    cases harguments

theorem stream_cuts_and_calls_bareCall :
    CallsByIndex callOf
      (deltasOf bareCallLib none (bareCallTransfer.chunks.map (·.1)).flatten)
      (doInvokeOnce bareCallLib true none bareCallTransfer).toolCalls :=
  (stream_cuts_and_calls bareCallLib none).2 bareCallTransfer bareCallTransfer_completed

end JiuwenCore.Models.OpenAI
