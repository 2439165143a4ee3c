import Mathlib.Data.List.Forall2
import JiuwenCore.Models.AnthropicCuts

/-!
# The tool calls of an Anthropic stream

A well-formed stream is a sequence of content blocks, counted from 0 over all
kinds. The parser finds the block of an input fragment by that count in the list
of tool uses alone, and starts every input with the empty object of the opening
event. The tool calls have the ids and names of their blocks; their arguments are
right for the blocks of `toolCalls_match_iff`.
-/

namespace JiuwenCore.Models.Anthropic

/-! ## Well-formed streams -/

structure ToolBlock where
  id : Str
  name : Str
  fragments : List Str

/-- A content block with the texts or input fragments of its deltas. -/
inductive Block where
  | text (texts : List Str)
  | tool (block : ToolBlock)

section Lines

variable (lib : JsonLib)

/-- A data line with an event of the given type. -/
def EventLine (type : Str) (data : Json) (line : Str) : Prop :=
  ∃ text, text ≠ [] ∧ line = lit "data: " ++ text ∧ lib.parse text = some data ∧
    data.member (lit "type") = some (.str type)

/-- A line the block grammar says nothing about: no data line, or an event that
is not about a block. -/
def Ignorable (line : Str) : Prop :=
  (lit "data: ").isPrefixOf line = false ∨
    ∃ type data, EventLine lib type data line ∧ type ≠ lit "content_block_start" ∧
      type ≠ lit "content_block_delta" ∧ type ≠ lit "content_block_stop" ∧
      type ≠ lit "message_stop"

def StartLine (i : Nat) (block : Json) (line : Str) : Prop :=
  ∃ data, EventLine lib (lit "content_block_start") data line ∧
    data.member (lit "index") = some (.int i) ∧ data.member (lit "content_block") = some block

def DeltaLine (i : Nat) (kind field fragment line : Str) : Prop :=
  ∃ data delta, EventLine lib (lit "content_block_delta") data line ∧
    data.member (lit "index") = some (.int i) ∧ data.member (lit "delta") = some delta ∧
    delta.member (lit "type") = some (.str kind) ∧ delta.member field = some (.str fragment)

def StopLine (i : Nat) (line : Str) : Prop :=
  ∃ data, EventLine lib (lit "content_block_stop") data line ∧
    data.member (lit "index") = some (.int i)

/-- The deltas of one block, with the fragments they carry. -/
inductive DeltaLines (i : Nat) (kind field : Str) : List Str → List Str → Prop
  | nil : DeltaLines i kind field [] []
  | skip {line : Str} {fragments ls : List Str} : Ignorable lib line →
      DeltaLines i kind field fragments ls → DeltaLines i kind field fragments (line :: ls)
  | delta {line fragment : Str} {fragments ls : List Str} :
      DeltaLine lib i kind field fragment line → DeltaLines i kind field fragments ls →
      DeltaLines i kind field (fragment :: fragments) (line :: ls)

/-- The lines of the blocks from index `i` on: each block is opened, extended by
deltas with its own index, and closed. -/
inductive BlockLines : Nat → List Block → List Str → Prop
  | nil {i : Nat} : BlockLines i [] []
  | skip {i : Nat} {blocks : List Block} {line : Str} {ls : List Str} : Ignorable lib line →
      BlockLines i blocks ls → BlockLines i blocks (line :: ls)
  | text {i : Nat} {texts : List Str} {blocks : List Block} {block : Json} {start stop : Str}
      {deltas rest : List Str} : StartLine lib i block start →
      block.member (lit "type") = some (.str (lit "text")) →
      DeltaLines lib i (lit "text_delta") (lit "text") texts deltas → StopLine lib i stop →
      BlockLines (i + 1) blocks rest →
      BlockLines i (.text texts :: blocks) (start :: (deltas ++ stop :: rest))
  | tool {i : Nat} {tool : ToolBlock} {blocks : List Block} {block : Json} {start stop : Str}
      {deltas rest : List Str} : StartLine lib i block start →
      block.member (lit "type") = some (.str (lit "tool_use")) →
      block.member (lit "id") = some (.str tool.id) →
      block.member (lit "name") = some (.str tool.name) →
      block.member (lit "input") = some (.obj []) →
      DeltaLines lib i (lit "input_json_delta") (lit "partial_json") tool.fragments deltas →
      StopLine lib i stop → BlockLines (i + 1) blocks rest →
      BlockLines i (.tool tool :: blocks) (start :: (deltas ++ stop :: rest))

/-- A stream of blocks. Only blank lines follow a `message_stop`, and the number
of blocks fits an `int`. -/
structure WellFormed (blocks : List Block) (stream : Str) : Prop where
  lines : BlockLines lib 0 blocks (LineFeed.beforeStop 10 (isMessageStop lib) stream)
  blank : ∀ behind, LineFeed.behindStop 10 (isMessageStop lib) stream = some behind →
    ∀ c ∈ behind, c = 10
  fits : blocks.length < 2 ^ 31

end Lines

/-! ## Events of a block -/

/-- What an event does to the tool uses. -/
def Event.onTools (toolUses : List PartialToolUse) : Event → List PartialToolUse
  | .openTool tu => toolUses ++ [tu]
  | .fragment index s => appendInput toolUses index s
  | _ => toolUses

theorem run_toolUses (called : Bool) (p : Parsed) (events : List Event) :
    (p.run called events).toolUses = events.foldl Event.onTools p.toolUses := by
  induction events generalizing p with
  | nil => rfl
  | cons event rest ih =>
      have h := ih (p.apply called event)
      unfold Parsed.run at h ⊢
      rw [List.foldl_cons, h, List.foldl_cons]
      cases event <;> rfl

theorem value_of_member {α : Type} (get : Json → Option α) {key : Str} {default : α} {j m : Json}
    (h : j.member key = some m) : j.value get key default = get m := by
  cases j with
  | obj members => simp [Json.value, h]
  | _ => simp [Json.member] at h

theorem memberOrNull_of_member {key : Str} {j m : Json} (h : j.member key = some m) :
    j.memberOrNull key = m := by
  simp [Json.memberOrNull, h]

theorem readData_of_eventLine {lib : JsonLib} {type line : Str} {data : Json}
    (h : EventLine lib type data line) : readData lib line = some (type, data) := by
  rcases h with ⟨text, hne, rfl, hparse, htype⟩
  have hdrop : (lit "data: " ++ text).drop 6 = text := List.drop_left' rfl
  have hvalue : data.value Json.getString (lit "type") [] = some type := by
    rw [value_of_member _ htype]
    rfl
  unfold readData
  rw [hdrop, if_pos ⟨by simp, hne⟩, hparse]
  dsimp only
  rw [hvalue, Option.map_some]

theorem ofInt_toInt {i : Nat} (h : i < 2 ^ 31) : (Int32.ofInt (i : Int)).toInt = i := by
  exact Int32.toInt_ofInt_of_le (by omega) (by omega)

/-- Lines the grammar says nothing about leave the tool uses alone. -/
theorem onTools_ignorable {lib : JsonLib} {line : Str} (h : Ignorable lib line)
    (toolUses : List PartialToolUse) : (readEvent lib line).onTools toolUses = toolUses := by
  rcases h with hdata | ⟨type, data, hline, hstart, hdelta, _, _⟩
  · simp [readEvent, readData, hdata, Event.onTools]
  · unfold readEvent
    rw [readData_of_eventLine hline]
    dsimp only
    rw [if_neg hstart, if_neg hdelta]
    split
    · unfold messageDeltaEvent
      split <;> rfl
    · rfl

theorem onTools_stop {lib : JsonLib} {i : Nat} {line : Str} (h : StopLine lib i line)
    (toolUses : List PartialToolUse) : (readEvent lib line).onTools toolUses = toolUses := by
  rcases h with ⟨data, hline, _⟩
  unfold readEvent
  rw [readData_of_eventLine hline]
  dsimp only
  rw [if_neg (by decide), if_neg (by decide), if_neg (by decide)]
  rfl

/-- The event of a line that starts a block. -/
theorem readEvent_start {lib : JsonLib} {i : Nat} {block : Json} {line kind : Str}
    (h : StartLine lib i block line) (htype : block.member (lit "type") = some (.str kind)) :
    readEvent lib line =
      if kind = lit "tool_use" then (readToolUse lib block).elim .other .openTool else .other := by
  rcases h with ⟨data, hline, hindex, hblock⟩
  unfold readEvent
  rw [readData_of_eventLine hline]
  dsimp only
  rw [if_pos rfl]
  unfold startEvent
  rw [memberOrNull_of_member hblock]
  dsimp only
  rw [value_of_member _ htype, value_of_member _ hindex]
  have hint : (Json.getInt lib (.int i)).isSome := rfl
  simp [hint, Json.getString]

theorem onTools_textStart {lib : JsonLib} {i : Nat} {block : Json} {line : Str}
    (h : StartLine lib i block line)
    (htype : block.member (lit "type") = some (.str (lit "text")))
    (toolUses : List PartialToolUse) : (readEvent lib line).onTools toolUses = toolUses := by
  rw [readEvent_start h htype, if_neg (by decide)]
  rfl

theorem onTools_toolStart {lib : JsonLib} (hdump : lib.dump (.obj []) = some (lit "\x7b\x7d"))
    {i : Nat} {tool : ToolBlock} {block : Json} {line : Str} (h : StartLine lib i block line)
    (htype : block.member (lit "type") = some (.str (lit "tool_use")))
    (hid : block.member (lit "id") = some (.str tool.id))
    (hname : block.member (lit "name") = some (.str tool.name))
    (hinput : block.member (lit "input") = some (.obj []))
    (toolUses : List PartialToolUse) :
    (readEvent lib line).onTools toolUses =
      toolUses ++ [⟨tool.id, tool.name, lit "\x7b\x7d"⟩] := by
  have hread : readToolUse lib block = some ⟨tool.id, tool.name, lit "\x7b\x7d"⟩ := by
    unfold readToolUse
    rw [value_of_member _ hid, value_of_member _ hname, hinput]
    simp [Json.getString, hdump]
  rw [readEvent_start h htype, if_pos rfl, hread]
  rfl

theorem appendInput_nil (toolUses : List PartialToolUse) (index : Int) :
    appendInput toolUses index [] = toolUses := by
  have hid : (fun tu : PartialToolUse => { tu with inputJson := tu.inputJson ++ [] }) = id := by
    funext tu
    simp
  unfold appendInput
  rw [hid]
  split
  · exact List.modify_id _ _
  · rfl

theorem appendInput_last (before : List PartialToolUse) (tu : PartialToolUse) (s : Str) :
    appendInput (before ++ [tu]) before.length s =
      before ++ [{ tu with inputJson := tu.inputJson ++ s }] := by
  have hmodify : ∀ (l : List PartialToolUse) (f : PartialToolUse → PartialToolUse),
      (l ++ [tu]).modify l.length f = l ++ [f tu] := by
    intro l f
    induction l with
    | nil => rfl
    | cons first rest ih => rw [List.cons_append, List.length_cons, List.modify_succ_cons, ih]; rfl
  unfold appendInput
  rw [if_pos (by simp only [List.length_append, List.length_singleton]; omega)]
  exact hmodify before _

theorem appendInput_beyond {toolUses : List PartialToolUse} {index : Nat}
    (h : toolUses.length ≤ index) (s : Str) : appendInput toolUses index s = toolUses := by
  unfold appendInput
  rw [if_neg (by omega)]

/-- A text or input fragment reaches the tool uses only as input. -/
theorem onTools_delta {lib : JsonLib} {i : Nat} (hi : i < 2 ^ 31) {kind field fragment line : Str}
    (h : DeltaLine lib i kind field fragment line) (toolUses : List PartialToolUse) :
    (kind = lit "text_delta" → field = lit "text" →
      (readEvent lib line).onTools toolUses = toolUses) ∧
    (kind = lit "input_json_delta" → field = lit "partial_json" →
      (readEvent lib line).onTools toolUses = appendInput toolUses i fragment) := by
  rcases h with ⟨data, delta, hline, hindex, hdelta, hkind, hfield⟩
  have hread : readEvent lib line =
      if kind = lit "text_delta" then textEvent delta
      else if kind = lit "input_json_delta" then fragmentEvent (Int32.ofInt i) delta
      else .other := by
    unfold readEvent
    rw [readData_of_eventLine hline]
    dsimp only
    rw [if_neg (by decide), if_pos rfl]
    unfold deltaEvent
    rw [memberOrNull_of_member hdelta]
    dsimp only
    rw [value_of_member _ hindex, value_of_member _ hkind]
    simp only [Json.getInt, Json.getString, Option.some.injEq]
  constructor
  · rintro rfl rfl
    rw [hread, if_pos rfl]
    unfold textEvent
    split <;> rfl
  · rintro rfl rfl
    rw [hread, if_neg (by decide), if_pos rfl]
    unfold fragmentEvent
    rw [value_of_member _ hfield]
    cases fragment with
    | nil =>
        rw [appendInput_nil]
        rfl
    | cons c rest =>
        simp only [Json.getString, Event.onTools]
        rw [ofInt_toInt hi]

theorem run_textDeltas {lib : JsonLib} {i : Nat} (hi : i < 2 ^ 31) {texts ls : List Str}
    (h : DeltaLines lib i (lit "text_delta") (lit "text") texts ls)
    (toolUses : List PartialToolUse) :
    (ls.map (readEvent lib)).foldl Event.onTools toolUses = toolUses := by
  induction h with
  | nil => rfl
  | skip hline _ ih => rw [List.map_cons, List.foldl_cons, onTools_ignorable hline, ih]
  | delta hline _ ih =>
      rw [List.map_cons, List.foldl_cons, (onTools_delta hi hline toolUses).1 rfl rfl, ih]

/-- The fragments of a tool block reach its tool use when the block is the last of
the tool uses by its index, and are lost when the index is beyond them. -/
theorem run_inputDeltas {lib : JsonLib} {i : Nat} (hi : i < 2 ^ 31) {fragments ls : List Str}
    (h : DeltaLines lib i (lit "input_json_delta") (lit "partial_json") fragments ls)
    (before : List PartialToolUse) (tu : PartialToolUse) (hbefore : before.length ≤ i) :
    (ls.map (readEvent lib)).foldl Event.onTools (before ++ [tu]) =
      before ++ [{ tu with
        inputJson := tu.inputJson ++ if before.length = i then fragments.flatten else [] }] := by
  induction h generalizing tu with
  | nil => simp
  | skip hline _ ih => rw [List.map_cons, List.foldl_cons, onTools_ignorable hline, ih]
  | @delta line fragment fragments ls hline _ ih =>
      rw [List.map_cons, List.foldl_cons, (onTools_delta hi hline _).2 rfl rfl]
      by_cases hlast : before.length = i
      · subst hlast
        rw [appendInput_last, ih, if_pos rfl, if_pos rfl]
        simp
      · have hbeyond : (before ++ [tu]).length ≤ i := by
          rw [List.length_append, List.length_singleton]
          omega
        rw [appendInput_beyond hbeyond, ih, if_neg hlast, if_neg hlast]

/-- The tool uses parsed from the blocks from index `i` on, the first of which is
the tool use number `j`. -/
def parsedTools (i j : Nat) : List Block → List PartialToolUse
  | [] => []
  | .text _ :: blocks => parsedTools (i + 1) j blocks
  | .tool tool :: blocks =>
      { id := tool.id
        name := tool.name
        inputJson := lit "\x7b\x7d" ++ if j = i then tool.fragments.flatten else [] } ::
      parsedTools (i + 1) (j + 1) blocks

theorem run_blocks {lib : JsonLib} (hdump : lib.dump (.obj []) = some (lit "\x7b\x7d"))
    {i : Nat} {blocks : List Block} {ls : List Str} (h : BlockLines lib i blocks ls)
    (hfits : i + blocks.length < 2 ^ 31) (toolUses : List PartialToolUse)
    (hlength : toolUses.length ≤ i) :
    (ls.map (readEvent lib)).foldl Event.onTools toolUses =
      toolUses ++ parsedTools i toolUses.length blocks := by
  induction h generalizing toolUses with
  | nil => simp [parsedTools]
  | skip hline _ ih =>
      rw [List.map_cons, List.foldl_cons, onTools_ignorable hline, ih hfits toolUses hlength]
  | text hstart htype hdeltas hstop _ ih =>
      rw [List.length_cons] at hfits
      rw [List.map_cons, List.foldl_cons, onTools_textStart hstart htype, List.map_append,
        List.foldl_append, run_textDeltas (by omega) hdeltas, List.map_cons, List.foldl_cons,
        onTools_stop hstop, ih (by omega) toolUses (by omega), parsedTools]
  | tool hstart htype hid hname hinput hdeltas hstop _ ih =>
      rw [List.length_cons] at hfits
      rw [List.map_cons, List.foldl_cons,
        onTools_toolStart hdump hstart htype hid hname hinput, List.map_append, List.foldl_append,
        run_inputDeltas (by omega) hdeltas toolUses _ hlength, List.map_cons, List.foldl_cons,
        onTools_stop hstop, ih (by omega) _ (by simp; omega), parsedTools]
      simp

/-! ## The tool calls -/

theorem lines_blank {buf : Str} (h : ∀ c ∈ buf, c = 10) :
    ∀ line ∈ LineFeed.lines 10 buf, line = [] := by
  induction buf with
  | nil => simp [LineFeed.lines]
  | cons c rest ih =>
      rw [LineFeed.lines, if_pos (h c List.mem_cons_self)]
      intro line hline
      rcases List.mem_cons.mp hline with rfl | hline
      · rfl
      · exact ih (fun c hc => h c (List.mem_cons_of_mem _ hc)) line hline

/-- Blank lines behind a `message_stop` are quiet. -/
theorem WellFormed.quiet {lib : JsonLib} {blocks : List Block} {stream : Str}
    (h : WellFormed lib blocks stream) : QuietBehindStop lib stream := by
  intro behind hbehind t ht
  have hblank : ∀ event ∈ eventsBeforeStop lib t, event = .other := by
    intro event hevent
    obtain ⟨line, hline, rfl⟩ := List.mem_map.mp hevent
    have hmem : line ∈ LineFeed.lines 10 t := (List.takeWhile_sublist _).subset hline
    rw [lines_blank (fun c hc => h.blank behind hbehind c (ht.subset hc)) line hmem]
    rfl
  have hnone : lastStopReason (eventsBeforeStop lib t) = none := by
    generalize eventsBeforeStop lib t = events at hblank
    induction events with
    | nil => rfl
    | cons event rest ih =>
        rw [hblank event List.mem_cons_self]
        exact ih fun e he => hblank e (List.mem_cons_of_mem event he)
  refine ⟨fun event hevent => ?_, fun last hlast => ?_⟩
  · rw [hblank event hevent]
    trivial
  · rw [hnone] at hlast
    cases hlast

theorem wellFormed_toolUses {lib : JsonLib}
    (hdump : lib.dump (.obj []) = some (lit "\x7b\x7d")) (onChunk : OnChunk)
    {blocks : List Block} {chunks : List Str} (h : WellFormed lib blocks chunks.flatten) :
    (chunks.foldl (processAnthropicSSEChunk lib onChunk) ({}, [])).1.toolUses =
      parsedTools 0 0 blocks := by
  have hparsed := congrArg Parsed.toolUses (parsed_cuts onChunk chunks h.quiet)
  change _ = (parsedBeforeStop lib onChunk chunks.flatten).toolUses at hparsed
  rw [parsedBeforeStop, run_toolUses] at hparsed
  have hfits := h.fits
  exact hparsed.trans (run_blocks hdump h.lines (by omega) [] (Nat.zero_le _))

/-- Documented behaviour of the library: the empty object is printed as such, and
text that starts with a complete value and goes on with another is refused. -/
structure Documented (lib : JsonLib) : Prop where
  dump_empty : lib.dump (.obj []) = some (lit "\x7b\x7d")
  one_value : ∀ s, (lib.parse s).isSome → lib.parse (lit "\x7b\x7d" ++ s) = none

/-- The tool call a block should become. Nothing is asked of the arguments when
the fragments join to something that is not JSON. -/
def CallMatches (lib : JsonLib) (tool : ToolBlock) (call : ToolCall) : Prop :=
  call.id = tool.id ∧ call.name = tool.name ∧
    (tool.fragments.flatten = [] → call.argumentsJson = lit "\x7b\x7d") ∧
    (tool.fragments.flatten ≠ [] → (lib.parse tool.fragments.flatten).isSome →
      call.argumentsJson = tool.fragments.flatten)

/-- A block without input, with the empty object as input, or with input that is
not JSON. -/
def Unspoiled (lib : JsonLib) (tool : ToolBlock) : Prop :=
  tool.fragments.flatten = [] ∨ tool.fragments.flatten = lit "\x7b\x7d" ∨
    lib.parse tool.fragments.flatten = none

def toolBlocks (blocks : List Block) : List ToolBlock :=
  blocks.filterMap fun block => match block with
    | .text _ => none
    | .tool tool => some tool

/-- Behind the empty object of the opening event no valid input stays valid. -/
theorem toToolCall_arguments {lib : JsonLib} (hlib : Documented lib) (id name : Str) {input : Str}
    (h : input = [] ∨ (lib.parse input).isSome) :
    (toToolCall lib ⟨id, name, lit "\x7b\x7d" ++ input⟩).argumentsJson = lit "\x7b\x7d" := by
  have hne : lit "\x7b\x7d" ++ input ≠ [] := by simp [lit]
  unfold toToolCall
  dsimp only
  rw [if_neg hne]
  split
  · rename_i hsome
    rcases h with rfl | hvalid
    · rw [List.append_nil]
    · rw [hlib.one_value input hvalid] at hsome
      cases hsome
  · rfl

/-- Whether or not the fragments reached the tool use, valid input is lost. -/
theorem callMatches_iff {lib : JsonLib} (hlib : Documented lib) (tool : ToolBlock)
    (reached : Prop) [Decidable reached] :
    CallMatches lib tool (toToolCall lib ⟨tool.id, tool.name,
      lit "\x7b\x7d" ++ if reached then tool.fragments.flatten else []⟩) ↔
      Unspoiled lib tool := by
  have hargs : tool.fragments.flatten = [] ∨ (lib.parse tool.fragments.flatten).isSome →
      (toToolCall lib ⟨tool.id, tool.name,
        lit "\x7b\x7d" ++ if reached then tool.fragments.flatten else []⟩).argumentsJson =
          lit "\x7b\x7d" := by
    intro h
    split
    · exact toToolCall_arguments hlib tool.id tool.name h
    · exact toToolCall_arguments hlib tool.id tool.name (Or.inl rfl)
  constructor
  · rintro ⟨_, _, _, hvalid⟩
    by_cases hnil : tool.fragments.flatten = []
    · exact Or.inl hnil
    · cases hparse : lib.parse tool.fragments.flatten with
      | none => exact Or.inr (Or.inr hparse)
      | some value =>
          have hsome : (lib.parse tool.fragments.flatten).isSome := by rw [hparse]; rfl
          exact Or.inr (Or.inl ((hvalid hnil hsome).symm.trans (hargs (Or.inr hsome))))
  · intro h
    refine ⟨rfl, rfl, fun hnil => hargs (Or.inl hnil), fun hne hsome => ?_⟩
    rcases h with hnil | hempty | hnone
    · exact absurd hnil hne
    · rw [hargs (Or.inr hsome), hempty]
    · rw [hnone] at hsome
      cases hsome

theorem callsMatch_iff {lib : JsonLib} (hlib : Documented lib) (i j : Nat) (blocks : List Block) :
    List.Forall₂ (CallMatches lib) (toolBlocks blocks)
      ((parsedTools i j blocks).map (toToolCall lib)) ↔
    ∀ tool ∈ toolBlocks blocks, Unspoiled lib tool := by
  induction blocks generalizing i j with
  | nil => simp [toolBlocks, parsedTools]
  | cons block rest ih =>
      cases block with
      | text texts => exact ih (i + 1) j
      | tool tool =>
          have hcons : toolBlocks (.tool tool :: rest) = tool :: toolBlocks rest := rfl
          rw [hcons, parsedTools, List.map_cons, List.forall₂_cons, ih, callMatches_iff hlib,
            List.forall_mem_cons]

/-- The tool calls of a completed transfer, by the blocks of its stream. -/
theorem toolCalls_eq {lib : JsonLib} (hlib : Documented lib) (onChunk : OnChunk)
    {blocks : List Block} {transfer : Transfer} (hcompleted : transfer.Completed)
    (hstream : WellFormed lib blocks (transfer.chunks.map (·.1)).flatten) :
    (doInvokeOnce lib true onChunk transfer).toolCalls =
      (parsedTools 0 0 blocks).map (toToolCall lib) := by
  unfold doInvokeOnce
  rw [postStream_completed _ _ _ hcompleted.1]
  dsimp only
  rw [respond_completed hcompleted, if_pos rfl,
    wellFormed_toolUses hlib.dump_empty onChunk hstream]

/-- The tool calls of a well-formed stream are those of its tool blocks exactly
when no tool block has input that is JSON other than the empty object. -/
theorem toolCalls_match_iff (lib : JsonLib) (hlib : Documented lib) (onChunk : OnChunk)
    (blocks : List Block) (transfer : Transfer) (hcompleted : transfer.Completed)
    (hstream : WellFormed lib blocks (transfer.chunks.map (·.1)).flatten) :
    List.Forall₂ (CallMatches lib) (toolBlocks blocks)
      (doInvokeOnce lib true onChunk transfer).toolCalls ↔
    ∀ tool ∈ toolBlocks blocks, Unspoiled lib tool := by
  rw [toolCalls_eq hlib onChunk hcompleted hstream]
  exact callsMatch_iff hlib 0 0 blocks

/-- The events of a stream with one tool block. -/
def openText : Str :=
  lit "\x7b\"type\":\"content_block_start\",\"index\":0,\"content_block\":" ++
    lit "\x7b\"type\":\"tool_use\",\"id\":\"t\",\"name\":\"f\",\"input\":\x7b\x7d\x7d\x7d"

def openBlock : Json :=
  .obj [(lit "id", .str (lit "t")), (lit "input", .obj []), (lit "name", .str (lit "f")),
    (lit "type", .str (lit "tool_use"))]

def inputText : Str :=
  lit "\x7b\"type\":\"content_block_delta\",\"index\":0,\"delta\":" ++
    lit "\x7b\"type\":\"input_json_delta\",\"partial_json\":\"[1]\"\x7d\x7d"

def inputDelta : Json :=
  .obj [(lit "partial_json", .str (lit "[1]")), (lit "type", .str (lit "input_json_delta"))]

def closeText : Str := lit "\x7b\"type\":\"content_block_stop\",\"index\":0\x7d"

/-- What a library that knows these texts makes of them. -/
def oneToolTable : List (Str × Json) :=
  [(openText, .obj [(lit "content_block", openBlock), (lit "index", .int 0),
      (lit "type", .str (lit "content_block_start"))]),
    (inputText, .obj [(lit "delta", inputDelta), (lit "index", .int 0),
      (lit "type", .str (lit "content_block_delta"))]),
    (closeText, .obj [(lit "index", .int 0), (lit "type", .str (lit "content_block_stop"))]),
    (lit "[1]", .arr [.int 1])]

def oneToolLib : JsonLib where
  parse := fun s => (oneToolTable.find? fun entry => entry.1 = s).map (·.2)
  dump := fun j => match j with
    | .obj [] => some (lit "\x7b\x7d")
    | _ => none
  dumpIndented := fun _ _ => none
  floatToInt := fun _ => 0

def oneToolTransfer : Transfer where
  chunks := [(lit "data: " ++ openText ++ [10], false), (lit "data: " ++ inputText ++ [10], false),
    (lit "data: " ++ closeText ++ [10], false)]
  response := { statusCode := 200 }

def oneToolBlocks : List Block := [.tool ⟨lit "t", lit "f", [lit "[1]"]⟩]

theorem oneToolLib_documented : Documented oneToolLib where
  dump_empty := rfl
  one_value := by
    intro s _
    have hkeys : ∀ entry ∈ oneToolTable, entry.1.take 2 ≠ lit "\x7b\x7d" := by decide +kernel
    have hnone : oneToolTable.find? (fun entry => entry.1 = lit "\x7b\x7d" ++ s) = none := by
      rw [List.find?_eq_none]
      intro entry hentry heq
      refine hkeys entry hentry ?_
      rw [of_decide_eq_true heq]
      rfl
    simp [oneToolLib, hnone]

theorem oneToolTransfer_completed : oneToolTransfer.Completed := by
  unfold Transfer.Completed
  decide

theorem oneTool_wellFormed :
    WellFormed oneToolLib oneToolBlocks (oneToolTransfer.chunks.map (·.1)).flatten where
  lines := by
    have hlines : LineFeed.beforeStop 10 (isMessageStop oneToolLib)
        (oneToolTransfer.chunks.map (·.1)).flatten =
          [lit "data: " ++ openText, lit "data: " ++ inputText, lit "data: " ++ closeText] := by
      decide +kernel
    rw [hlines]
    have hopen : StartLine oneToolLib 0 openBlock (lit "data: " ++ openText) :=
      ⟨_, ⟨openText, by decide, rfl, rfl, rfl⟩, rfl, rfl⟩
    have hinput : DeltaLine oneToolLib 0 (lit "input_json_delta") (lit "partial_json") (lit "[1]")
        (lit "data: " ++ inputText) :=
      ⟨_, inputDelta, ⟨inputText, by decide, rfl, rfl, rfl⟩, rfl, rfl, rfl, rfl⟩
    have hclose : StopLine oneToolLib 0 (lit "data: " ++ closeText) :=
      ⟨_, ⟨closeText, by decide, rfl, rfl, rfl⟩, rfl⟩
    exact @BlockLines.tool _ 0 ⟨lit "t", lit "f", [lit "[1]"]⟩ [] openBlock _ _
      [lit "data: " ++ inputText] [] hopen rfl rfl rfl rfl (.delta hinput .nil) hclose .nil
  blank := by
    intro behind hbehind
    have hnone : LineFeed.behindStop 10 (isMessageStop oneToolLib)
        (oneToolTransfer.chunks.map (·.1)).flatten = none := by
      decide +kernel
    rw [hnone] at hbehind
    cases hbehind
  fits := by decide

theorem toolCalls_match_oneTool :
    List.Forall₂ (CallMatches oneToolLib) (toolBlocks oneToolBlocks)
      (doInvokeOnce oneToolLib true none oneToolTransfer).toolCalls ↔
    ∀ tool ∈ toolBlocks oneToolBlocks, Unspoiled oneToolLib tool :=
  toolCalls_match_iff oneToolLib oneToolLib_documented none oneToolBlocks oneToolTransfer
    oneToolTransfer_completed oneTool_wellFormed

/-- The input of the only block is lost: the empty object of its opening event
stands in front of it, and the two together are not JSON. -/
theorem toolCalls_lose_input :
    ¬ ∀ (lib : JsonLib) (onChunk : OnChunk) (blocks : List Block) (transfer : Transfer),
      Documented lib → transfer.Completed →
        WellFormed lib blocks (transfer.chunks.map (·.1)).flatten →
        List.Forall₂ (CallMatches lib) (toolBlocks blocks)
          (doInvokeOnce lib true onChunk transfer).toolCalls := by
  intro h
  have hmatch := h oneToolLib none oneToolBlocks oneToolTransfer oneToolLib_documented
    oneToolTransfer_completed oneTool_wellFormed
  rw [toolCalls_eq oneToolLib_documented none oneToolTransfer_completed oneTool_wellFormed,
    callsMatch_iff oneToolLib_documented] at hmatch
  rcases hmatch _ List.mem_cons_self with hnil | hempty | hnone
  · revert hnil
    decide
  · revert hempty
    decide
  · revert hnone
    decide

end JiuwenCore.Models.Anthropic
