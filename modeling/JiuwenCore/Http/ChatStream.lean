import JiuwenCore.JsonReader
import JiuwenCore.Lib.EventStream
import JiuwenCore.Lib.Runs
import JiuwenCore.Session.Manager
import JiuwenCore.Utils.ToolNames

/-!
# The chat stream of the HTTP server

What the agent says is queued as events of an event stream. The connection writes the queued events
whenever it is asked for more, and one event of its own when the agent is done. The page reads the
stream in whatever pieces it arrives.
-/

namespace JiuwenCore.HttpServer

open Session (SessionInvokeResult)

/-! ## The events -/

inductive EventType where
  | message
  | stream
  | status
  | toolCall
  | toolResponse
  | askUser
  | done
  deriving DecidableEq, Repr

def EventType.text : EventType → Str
  | message => lit "message"
  | stream => lit "stream"
  | status => lit "status"
  | toolCall => lit "tool_call"
  | toolResponse => lit "tool_response"
  | askUser => lit "ask_user"
  | done => lit "done"

def tagStream : Str := lit "[STREAM]"
def tagStatus : Str := lit "[STATUS]"
def tagToolCalls : Str := lit "[TOOL_CALLS]"
def tagToolResponse : Str := lit "[TOOL_RESPONSE"
def tagAskUser : Str := lit "[ASK_USER]"
def tagAskUserEnd : Str := lit "[/ASK_USER]"
def tagFinal : Str := lit "[FINAL]"

def isSpace (c : UInt8) : Bool := c = 32
def isGap (c : UInt8) : Bool := c = 32 ∨ c = 10

/-- The data of a tool response whose tag stands at `pos`, with the id of the call in front. -/
def toolResponseData (resp : Str) (pos : Nat) : Str :=
  match findFrom [93] resp pos with
  | none => resp.drop (pos + 14)
  | some closeBracket =>
      let header := ((resp.drop (pos + 14)).take (closeBracket - pos - 14)).dropWhile isSpace
      let payload := (resp.drop (closeBracket + 1)).dropWhile isSpace
      if header = [] then payload else header ++ lit ": " ++ payload

def askUserData (resp : Str) (pos : Nat) : Str :=
  match findFrom tagAskUserEnd resp pos with
  | some endPos => (resp.drop (pos + 10)).take (endPos - (pos + 10))
  | none => resp.drop (pos + 10)

/-- The type and the data of what the agent says. A tag counts wherever it stands. -/
def classify (resp : Str) : EventType × Str :=
  match indexOf tagStream resp with
  | some pos => (.stream, resp.drop (pos + 8))
  | none =>
  match indexOf tagStatus resp with
  | some pos => (.status, (resp.drop (pos + 8)).dropWhile isSpace)
  | none =>
  match indexOf tagToolCalls resp with
  | some pos => (.toolCall, (resp.drop (pos + 12)).dropWhile isGap)
  | none =>
  match indexOf tagToolResponse resp with
  | some pos => (.toolResponse, (toolResponseData resp pos).dropWhile (· = 10))
  | none =>
  match indexOf tagAskUser resp with
  | some pos => (.askUser, (askUserData resp pos).dropWhile isGap)
  | none =>
  match indexOf tagFinal resp with
  | some _ => (.done, [])
  | none => (.message, resp)

/-- The text of an event: its type, and a line for each line of the data. -/
def sseText (eventType : EventType) (data : Str) : Str :=
  lit "event: " ++ eventType.text ++ lit "\n" ++
    (data.splitOn 10).flatMap (fun line => lit "data: " ++ line ++ lit "\n") ++ lit "\n"

section Callback

variable (lib : JsonLib)

/-- What `streamCallback` queues: nothing if there is no data, and nothing if `dump` throws, where
the agent gets the exception. -/
def sseEvent (resp : Str) : Option Str :=
  if resp = [] then none
  else
    let (eventType, data) := classify resp
    let data := data.filter (· ≠ 13)
    if data = [] then none
    else if eventType = .stream then
      (lib.dump (.str data)).map fun text =>
        lit "event: " ++ eventType.text ++ lit "\n" ++ (lit "data: " ++ text ++ lit "\n\n")
    else some (sseText eventType data)

def finalResult (result : SessionInvokeResult) : Json :=
  .obj ([(lit "content", .str result.content)] ++
    (if result.success then [] else [(lit "error", .str result.errorMessage)]) ++
    [(lit "session_id", .str result.sessionId), (lit "success", .bool result.success)])

/-- The event at the end, `none` if `dump` throws. -/
def doneEvent (result : SessionInvokeResult) : Option Str :=
  (lib.dump (finalResult result)).map fun text =>
    lit "event: done\ndata: " ++ text ++ lit "\n\n"

end Callback

/-! ## The page -/

/-- The white space that JavaScript knows, in UTF-8. -/
def whiteSpace : List Str :=
  [[9], [10], [11], [12], [13], [32], [0xC2, 0xA0], [0xE1, 0x9A, 0x80]] ++
    ([0x80, 0x81, 0x82, 0x83, 0x84, 0x85, 0x86, 0x87, 0x88, 0x89, 0x8A, 0xA8, 0xA9, 0xAF].map
      fun c => [0xE2, 0x80, c]) ++
    [[0xE2, 0x81, 0x9F], [0xE3, 0x80, 0x80], [0xEF, 0xBB, 0xBF]]

/-- The text without such words in front, so many of them at most. -/
def skipWords (words : List Str) : Nat → Str → Str
  | 0, s => s
  | rounds + 1, s =>
      match words.find? (·.isPrefixOf s) with
      | some word => skipWords words rounds (s.drop word.length)
      | none => s

def skipSpace (s : Str) : Str := skipWords whiteSpace s.length s

/-- `trim()`. -/
def jsTrim (s : Str) : Str :=
  let s := skipSpace s
  (skipWords (whiteSpace.map List.reverse) s.length s.reverse).reverse

/-- `replace(/^ /, '')`. -/
def dropSpace : Str → Str
  | 32 :: rest => rest
  | s => s

/-- What the page makes of a line, where the type and the data lines are known so far. -/
def readLine (read : Str × List Str) (line : Str) : Str × List Str :=
  if (lit "event:").isPrefixOf line then (jsTrim (line.drop 6), read.2)
  else if (lit "data:").isPrefixOf line then (read.1, read.2 ++ [dropSpace (line.drop 5)])
  else read

def readBlock (ev : Str) : Str × Str :=
  let read := (ev.splitOn 10).foldl readLine (lit "message", [])
  (read.1, [10].intercalate read.2)

/-- The events that the page handles of a stream that arrives in pieces. -/
def pageEvents (pieces : List Str) : List (Str × Str) :=
  (EventStream.readAll 10 pieces).1.map readBlock

/-! ## One event -/

/-- What the page is to see of what the agent says. -/
def shown (lib : JsonLib) (resp : Str) : Option (EventType × Str) :=
  let data := (classify resp).2.filter (· ≠ 13)
  if resp = [] ∨ data = [] then none
  else if (classify resp).1 = .stream then (lib.dump (.str data)).map fun text => (.stream, text)
  else some ((classify resp).1, data)

/-- An event without its end. -/
def block (event : EventType × Str) : Str :=
  [10].intercalate ((lit "event: " ++ event.1.text) ::
    (event.2.splitOn 10).map fun line => lit "data: " ++ line)

theorem intercalate_lines {head : Str} {lines : List Str} :
    [10].intercalate (head :: lines) ++ lit "\n\n" =
      head ++ lit "\n" ++ lines.flatMap (fun line => line ++ lit "\n") ++ lit "\n" := by
  induction lines generalizing head with
  | nil =>
      rw [List.intercalate_singleton, List.flatMap_nil, List.append_nil, List.append_assoc]
      rfl
  | cons line lines ih =>
      rw [List.intercalate_cons_cons, List.append_assoc, ih, List.flatMap_cons]
      simp only [List.append_assoc]
      rfl

theorem block_end (event : EventType × Str) :
    block event ++ lit "\n\n" = sseText event.1 event.2 := by
  rw [block, intercalate_lines, sseText, List.flatMap_map]

theorem text_no_line (eventType : EventType) : 10 ∉ eventType.text := by
  cases eventType <;> decide

theorem block_lines (event : EventType × Str) :
    ∀ line ∈ (lit "event: " ++ event.1.text) ::
      (event.2.splitOn 10).map (fun line => lit "data: " ++ line), 10 ∉ line := by
  refine List.forall_mem_cons.mpr ⟨?_, ?_⟩
  · rw [List.mem_append, not_or]
    exact ⟨by decide, text_no_line event.1⟩
  · intro line hline
    obtain ⟨data, hdata, rfl⟩ := List.mem_map.mp hline
    rw [List.mem_append, not_or]
    exact ⟨by decide, EventStream.not_mem_of_splitOn hdata⟩

theorem block_solid (event : EventType × Str) : EventStream.Solid 10 (block event ++ [10]) := by
  refine EventStream.solid_intercalate (block_lines event) (List.forall_mem_cons.mpr ⟨?_, ?_⟩)
  · exact List.append_ne_nil_of_left_ne_nil (by decide) _
  · intro line hline
    obtain ⟨data, -, rfl⟩ := List.mem_map.mp hline
    exact List.append_ne_nil_of_left_ne_nil (by decide) _

theorem foldl_readLine (eventType : Str) (read lines : List Str) :
    (lines.map fun line => lit "data: " ++ line).foldl readLine (eventType, read) =
      (eventType, read ++ lines) := by
  induction lines generalizing read with
  | nil => rw [List.map_nil, List.foldl_nil, List.append_nil]
  | cons line lines ih =>
      have hline : readLine (eventType, read) (lit "data: " ++ line) =
          (eventType, read ++ [line]) := rfl
      rw [List.map_cons, List.foldl_cons, hline, ih, List.append_assoc, List.singleton_append]

/-- The page reads the type and the data that were written. -/
theorem readBlock_block (event : EventType × Str) :
    readBlock (block event) = (event.1.text, event.2) := by
  have hhead : readLine (lit "message", []) (lit "event: " ++ event.1.text) =
      (event.1.text, []) := by
    cases event.1 <;> decide
  have hsplit := List.splitOn_intercalate 10 (block_lines event) (List.cons_ne_nil _ _)
  rw [readBlock, block, hsplit, List.foldl_cons, hhead, foldl_readLine, List.nil_append,
    List.intercalate_splitOn]

section Lines

variable {lib : JsonLib} (hline : ∀ j text, lib.dump j = some text → 10 ∉ text)

include hline

theorem sseEvent_eq (resp : Str) :
    sseEvent lib resp = (shown lib resp).map fun event => block event ++ lit "\n\n" := by
  rw [sseEvent, shown]
  dsimp only
  by_cases hresp : resp = []
  · rw [if_pos hresp, if_pos (Or.inl hresp)]
    rfl
  · rw [if_neg hresp]
    by_cases hdata : (classify resp).2.filter (· ≠ 13) = []
    · rw [if_pos hdata, if_pos (Or.inr hdata)]
      rfl
    · rw [if_neg hdata, if_neg (not_or.mpr ⟨hresp, hdata⟩)]
      by_cases htype : (classify resp).1 = .stream
      · rw [if_pos htype, if_pos htype, Option.map_map]
        refine Option.map_congr fun text htext => ?_
        have hlines : text.splitOn 10 = [text] := List.splitOn_eq_singleton (hline _ text htext)
        rw [Function.comp_apply, block_end, sseText, hlines, htype, List.flatMap_singleton]
        simp only [List.append_assoc]
        rfl
      · rw [if_neg htype, if_neg htype, Option.map_some, block_end]

theorem doneEvent_eq (result : SessionInvokeResult) :
    doneEvent lib result =
      (lib.dump (finalResult result)).map fun text => block (.done, text) ++ lit "\n\n" := by
  refine Option.map_congr fun text htext => ?_
  have hlines : text.splitOn 10 = [text] := List.splitOn_eq_singleton (hline _ text htext)
  rw [block_end, sseText, hlines, List.flatMap_singleton]
  simp only [List.append_assoc]
  rfl

end Lines

/-! ## The connection -/

/-- Where the thread of the connection is. -/
inductive Provider where
  /-- It will be asked for more. -/
  | waiting
  /-- It has seen that the agent is done, and has let go of the lock. -/
  | leaving
  /-- It has written the last event. -/
  | finished
  /-- A write has failed, or the last event could not be dumped. -/
  | broken
  deriving DecidableEq, Repr

structure SseContext where
  events : List Str := []
  done : Bool := false
  result : SessionInvokeResult :=
    { sessionId := [], success := true, errorMessage := [], content := [] }
  provider : Provider := .waiting
  /-- What has gone out on the connection. -/
  wire : Str := []
  /-- What the agent has said. -/
  said : List Str := []

inductive Event where
  | callback (resp : Str)
  | finish (result : SessionInvokeResult)
  | provide
  /-- The write of the event at `n` fails, after so many bytes of it. -/
  | provideFails (n sent : Nat)
  | close
  | closeFails (sent : Nat)

section Steps

variable (lib : JsonLib)

/-- `streamCallback`, which pushes under the lock. -/
def callback (resp : Str) (st : SseContext) : Option SseContext :=
  if st.done = true then none
  else
    some { st with
      events := st.events ++ (sseEvent lib resp).toList
      said := st.said ++ [resp] }

/-- The thread of the agent at its end. -/
def finish (result : SessionInvokeResult) (st : SseContext) : Option SseContext :=
  if st.done = true then none else some { st with done := true, result := result }

/-- The content provider under the lock: it waits for events or the end. -/
def provide (st : SseContext) : Option SseContext :=
  if st.provider = .waiting ∧ (st.events ≠ [] ∨ st.done = true) then
    some { st with
      events := []
      wire := st.wire ++ st.events.flatten
      provider := if st.done then .leaving else .waiting }
  else none

def provideFails (n sent : Nat) (st : SseContext) : Option SseContext :=
  if st.provider = .waiting then
    (st.events[n]?).map fun event =>
      { st with
        events := st.events.drop n
        wire := st.wire ++ ((st.events.take n).flatten ++ event.take sent)
        provider := .broken }
  else none

/-- The end of the content provider, without the lock. -/
def close (st : SseContext) : Option SseContext :=
  if st.provider = .leaving then
    match doneEvent lib st.result with
    | some event => some { st with wire := st.wire ++ event, provider := .finished }
    | none => some { st with provider := .broken }
  else none

def closeFails (sent : Nat) (st : SseContext) : Option SseContext :=
  if st.provider = .leaving then
    (doneEvent lib st.result).map fun event =>
      { st with wire := st.wire ++ event.take sent, provider := .broken }
  else none

def step (st : SseContext) : Event → Option SseContext
  | .callback resp => callback lib resp st
  | .finish result => finish result st
  | .provide => provide st
  | .provideFails n sent => provideFails n sent st
  | .close => close lib st
  | .closeFails sent => closeFails lib sent st

end Steps

/-! ## The stream -/

/-- What the page is to see, as far as the agent has come. -/
def SseContext.shownEvents (lib : JsonLib) (st : SseContext) : List (EventType × Str) :=
  st.said.filterMap (shown lib)

/-- The event of the end, once the agent is done. -/
def SseContext.lastEvent (lib : JsonLib) (st : SseContext) : List (EventType × Str) :=
  if st.done then ((lib.dump (finalResult st.result)).map fun text => (.done, text)).toList else []

def writeEvents (events : List (EventType × Str)) : Str := EventStream.write 10 (events.map block)

theorem writeEvents_append (front back : List (EventType × Str)) :
    writeEvents (front ++ back) = writeEvents front ++ writeEvents back := by
  rw [writeEvents, List.map_append, EventStream.write, List.flatMap_append]
  rfl

theorem writeEvents_single (event : EventType × Str) :
    writeEvents [event] = block event ++ lit "\n\n" := by
  rw [writeEvents, List.map_singleton, EventStream.write, List.flatMap_singleton]
  rfl

/-- What is queued is what is not yet on the wire, as long as the connection goes on. -/
structure Streamed (lib : JsonLib) (st : SseContext) : Prop where
  queued : st.provider = .waiting →
    st.wire ++ st.events.flatten = writeEvents (st.shownEvents lib)
  drained : st.provider = .leaving →
    st.done = true ∧ st.wire = writeEvents (st.shownEvents lib)
  finished : st.provider = .finished → st.done = true ∧ (st.lastEvent lib).length = 1 ∧
    st.wire = writeEvents (st.shownEvents lib ++ st.lastEvent lib)
  broken : st.provider = .broken →
    st.wire <+: writeEvents (st.shownEvents lib ++ st.lastEvent lib)

section Invariant

variable {lib : JsonLib} {st st' : SseContext}

theorem lastEvent_running (h : st.done = false) : st.lastEvent lib = [] := by
  rw [SseContext.lastEvent, h]
  rfl

theorem prefix_whole (st : SseContext) :
    writeEvents (st.shownEvents lib) <+:
      writeEvents (st.shownEvents lib ++ st.lastEvent lib) := by
  rw [writeEvents_append]
  exact List.prefix_append _ _

theorem Streamed.of_broken (hbroken : st.provider = .broken)
    (hwire : st.wire <+: writeEvents (st.shownEvents lib ++ st.lastEvent lib)) :
    Streamed lib st := by
  refine ⟨fun hprovider => ?_, fun hprovider => ?_, fun hprovider => ?_, fun _ => hwire⟩ <;>
    rw [hbroken] at hprovider <;> cases hprovider

section Lines

variable (hline : ∀ j text, lib.dump j = some text → 10 ∉ text)

include hline

theorem writeEvents_shown (resp : Str) :
    writeEvents (shown lib resp).toList = (sseEvent lib resp).toList.flatten := by
  rw [sseEvent_eq hline]
  cases shown lib resp with
  | none => rfl
  | some event =>
      rw [Option.toList_some, writeEvents_single, Option.map_some, Option.toList_some,
        List.flatten_singleton]

theorem Streamed.callback (h : Streamed lib st) {resp : Str}
    (hstep : HttpServer.callback lib resp st = some st') : Streamed lib st' := by
  obtain ⟨hdone, hstep⟩ := Option.ite_none_left_eq_some.mp hstep
  cases hstep
  have hrunning : st.done = false := by simpa using hdone
  have hshown : SseContext.shownEvents lib { st with
      events := st.events ++ (sseEvent lib resp).toList, said := st.said ++ [resp] } =
        st.shownEvents lib ++ (shown lib resp).toList := by
    rw [SseContext.shownEvents, List.filterMap_append, ← SseContext.shownEvents]
    cases hresp : shown lib resp with
    | none => rw [List.filterMap_cons_none hresp]; rfl
    | some event => rw [List.filterMap_cons_some hresp]; rfl
  refine ⟨fun hwaiting => ?_, fun hleaving => ?_, fun hfinished => ?_, fun hbroken => ?_⟩
  · rw [hshown, writeEvents_append, writeEvents_shown hline, ← h.queued hwaiting,
      List.flatten_append, List.append_assoc]
  · exact absurd (h.drained hleaving).1 hdone
  · exact absurd (h.finished hfinished).1 hdone
  · have hfront := h.broken hbroken
    rw [lastEvent_running hrunning, List.append_nil] at hfront
    refine hfront.trans (List.IsPrefix.trans ?_ (prefix_whole _))
    rw [hshown, writeEvents_append]
    exact List.prefix_append _ _

theorem lastEvent_done {event : Str} (hdone : st.done = true)
    (hevent : doneEvent lib st.result = some event) :
    (st.lastEvent lib).length = 1 ∧ writeEvents (st.lastEvent lib) = event := by
  rw [doneEvent_eq hline] at hevent
  obtain ⟨text, htext, rfl⟩ := Option.map_eq_some_iff.mp hevent
  rw [SseContext.lastEvent, if_pos hdone, htext, Option.map_some, Option.toList_some]
  exact ⟨rfl, writeEvents_single _⟩

theorem Streamed.close (h : Streamed lib st) (hstep : HttpServer.close lib st = some st') :
    Streamed lib st' := by
  obtain ⟨hleaving, hstep⟩ := Option.ite_none_right_eq_some.mp hstep
  obtain ⟨hdone, hwire⟩ := h.drained hleaving
  cases hevent : doneEvent lib st.result with
  | none =>
      rw [hevent] at hstep
      cases hstep
      refine .of_broken rfl ?_
      rw [show st.wire = writeEvents (st.shownEvents lib) from hwire]
      exact prefix_whole st
  | some event =>
      rw [hevent] at hstep
      cases hstep
      obtain ⟨hlength, hlast⟩ := lastEvent_done hline hdone hevent
      refine ⟨fun hprovider => ?_, fun hprovider => ?_, fun _ => ⟨hdone, hlength, ?_⟩,
        fun hprovider => ?_⟩
      · cases hprovider
      · cases hprovider
      · rw [writeEvents_append]
        exact congrArg₂ (· ++ ·) hwire hlast.symm
      · cases hprovider

theorem Streamed.closeFails (h : Streamed lib st) {sent : Nat}
    (hstep : HttpServer.closeFails lib sent st = some st') : Streamed lib st' := by
  obtain ⟨hleaving, hstep⟩ := Option.ite_none_right_eq_some.mp hstep
  obtain ⟨hdone, hwire⟩ := h.drained hleaving
  obtain ⟨event, hevent, heq⟩ := Option.map_eq_some_iff.mp hstep
  cases heq
  obtain ⟨-, hlast⟩ := lastEvent_done hline hdone hevent
  have hsent : st.wire ++ event.take sent <+:
      writeEvents (st.shownEvents lib) ++ writeEvents (st.lastEvent lib) := by
    rw [hwire, hlast]
    exact (List.prefix_append_right_inj _).mpr (List.take_prefix sent event)
  refine .of_broken rfl ?_
  rw [writeEvents_append]
  exact hsent

end Lines

theorem Streamed.finish (h : Streamed lib st) {result : SessionInvokeResult}
    (hstep : HttpServer.finish result st = some st') : Streamed lib st' := by
  obtain ⟨hdone, hstep⟩ := Option.ite_none_left_eq_some.mp hstep
  cases hstep
  have hrunning : st.done = false := by simpa using hdone
  refine ⟨h.queued, fun hleaving => ?_, fun hfinished => ?_, fun hbroken => ?_⟩
  · exact absurd (h.drained hleaving).1 hdone
  · exact absurd (h.finished hfinished).1 hdone
  · have hfront := h.broken hbroken
    rw [lastEvent_running hrunning, List.append_nil] at hfront
    exact hfront.trans (prefix_whole { st with done := true, result := result })

theorem Streamed.provide (h : Streamed lib st) (hstep : HttpServer.provide st = some st') :
    Streamed lib st' := by
  obtain ⟨⟨hwaiting, -⟩, hstep⟩ := Option.ite_none_right_eq_some.mp hstep
  cases hstep
  have hwire := h.queued hwaiting
  cases hdone : st.done with
  | false =>
      refine ⟨fun _ => ?_, fun hprovider => ?_, fun hprovider => ?_, fun hprovider => ?_⟩
      · rw [List.flatten_nil, List.append_nil]
        exact hwire
      · cases hprovider
      · cases hprovider
      · cases hprovider
  | true =>
      refine ⟨fun hprovider => ?_, fun _ => ⟨rfl, hwire⟩, fun hprovider => ?_,
        fun hprovider => ?_⟩
      · cases hprovider
      · cases hprovider
      · cases hprovider

theorem Streamed.provideFails (h : Streamed lib st) {n sent : Nat}
    (hstep : HttpServer.provideFails n sent st = some st') : Streamed lib st' := by
  obtain ⟨hwaiting, hstep⟩ := Option.ite_none_right_eq_some.mp hstep
  obtain ⟨event, hevent, heq⟩ := Option.map_eq_some_iff.mp hstep
  cases heq
  have hwire := h.queued hwaiting
  have hsent : st.wire ++ ((st.events.take n).flatten ++ event.take sent) <+:
      writeEvents (st.shownEvents lib) := by
    have hsplit : st.events.flatten =
        (st.events.take n).flatten ++ (event ++ (st.events.drop (n + 1)).flatten) := by
      obtain ⟨hn, rfl⟩ := List.getElem?_eq_some_iff.mp hevent
      rw [← List.flatten_cons, ← List.drop_eq_getElem_cons hn, ← List.flatten_append,
        List.take_append_drop]
    rw [← hwire, hsplit]
    refine (List.prefix_append_right_inj _).mpr ((List.prefix_append_right_inj _).mpr ?_)
    exact (List.take_prefix sent event).trans (List.prefix_append _ _)
  exact .of_broken rfl (hsent.trans (prefix_whole st))

theorem run_streamed (hline : ∀ j text, lib.dump j = some text → 10 ∉ text)
    (h : Run (step lib) AnyStep {} st) : Streamed lib st := by
  refine h.invariant ⟨fun _ => rfl, fun hprovider => ?_, fun hprovider => ?_,
    fun hprovider => ?_⟩ fun st event st' hst _ hstep => ?_
  · cases hprovider
  · cases hprovider
  · cases hprovider
  · cases event with
    | callback resp => exact hst.callback hline hstep
    | finish result => exact hst.finish hstep
    | provide => exact hst.provide hstep
    | provideFails n sent => exact hst.provideFails hstep
    | close => exact hst.close hline hstep
    | closeFails sent => exact hst.closeFails hline hstep

theorem Streamed.wire_prefix (h : Streamed lib st) :
    st.wire <+: writeEvents (st.shownEvents lib ++ st.lastEvent lib) := by
  cases hprovider : st.provider with
  | waiting =>
      have hwire : st.wire <+: writeEvents (st.shownEvents lib) := by
        rw [← h.queued hprovider]
        exact List.prefix_append _ _
      exact hwire.trans (prefix_whole st)
  | leaving =>
      rw [(h.drained hprovider).2]
      exact prefix_whole st
  | finished => rw [(h.finished hprovider).2.2]
  | broken => exact h.broken hprovider

end Invariant

/-! ## The printer writes one line -/

theorem toDecimal_line (n : Nat) : 10 ∉ toDecimal n := by
  intro h
  have hdigit := toDecimal_range n 10 h
  revert hdigit
  decide

theorem escapeByte_line (b : UInt8) : 10 ∉ Json.escapeByte b := by
  have hall : ∀ k : Fin 256, 10 ∉ Json.escapeByte (UInt8.ofNat k) := by decide +kernel
  exact byte_below (motive := fun b => 10 ∉ Json.escapeByte b) hall b.toNat_lt

theorem quote_line (s : Str) : 10 ∉ Json.quote s := by
  intro h
  rcases List.mem_append.mp h with h | h
  · rcases List.mem_append.mp h with h | h
    · revert h
      decide
    · obtain ⟨b, -, hb⟩ := List.mem_flatMap.mp h
      exact escapeByte_line b hb
  · revert h
    decide

theorem compact_line : Json.Parts Json.sampleFloat .compact fun s => 10 ∉ s where
  append := fun hs ht h => (List.mem_append.mp h).elim hs ht
  mark := by decide
  word := by decide
  int := by
    intro i
    unfold Json.printInt
    split
    · exact fun h => (List.mem_append.mp h).elim (by decide) (toDecimal_line _)
    · exact toDecimal_line _
  float := fun bits h => (List.mem_append.mp h).elim (toDecimal_line _) (by decide)
  string := fun s _ => quote_line s
  newline := fun _ => List.not_mem_nil
  colon := List.not_mem_nil

theorem readerLib_line : ∀ j text, readerLib.dump j = some text → 10 ∉ text := by
  intro j text h
  obtain ⟨hutf8, heq⟩ := Option.ite_none_right_eq_some.mp h
  cases heq
  exact compact_line.layOut 0 j hutf8

/-! ## What the page sees -/

/-- An event as the page has it. -/
def pageView (event : EventType × Str) : Str × Str := (event.1.text, event.2)

/-- The final answer has no data, so it is not queued. -/
theorem classify_done {resp : Str} (h : (classify resp).1 = .done) : (classify resp).2 = [] := by
  revert h
  fun_cases classify resp with
  | case6 => exact fun _ => rfl
  | _ => exact fun h => by cases h

theorem shown_type {lib : JsonLib} {resp : Str} {event : EventType × Str}
    (h : shown lib resp = some event) : event.1 = (classify resp).1 := by
  rw [shown] at h
  obtain ⟨-, h⟩ := Option.ite_none_left_eq_some.mp h
  split at h
  · rename_i hstream
    obtain ⟨text, -, rfl⟩ := Option.map_eq_some_iff.mp h
    exact hstream.symm
  · cases h
    rfl

theorem shown_ne_done {lib : JsonLib} {resp : Str} {event : EventType × Str}
    (h : shown lib resp = some event) : event.1 ≠ .done := by
  rw [shown_type h]
  intro hdone
  rw [shown] at h
  obtain ⟨hsome, -⟩ := Option.ite_none_left_eq_some.mp h
  rw [classify_done hdone] at hsome
  exact hsome (Or.inr rfl)

theorem blocks_solid (events : List (EventType × Str)) :
    ∀ b ∈ events.map block, EventStream.Solid 10 (b ++ [10]) := by
  intro b hb
  obtain ⟨event, -, rfl⟩ := List.mem_map.mp hb
  exact block_solid event

theorem map_readBlock (events : List (EventType × Str)) :
    (events.map block).map readBlock = events.map pageView := by
  rw [List.map_map]
  exact List.map_congr_left fun event _ => readBlock_block event

/-- What the page has read is the front of what it is to see. -/
theorem pageEvents_prefix {events : List (EventType × Str)} {pieces : List Str}
    (h : pieces.flatten <+: writeEvents events) :
    pageEvents pieces <+: events.map pageView := by
  rw [← map_readBlock]
  exact (EventStream.readAll_prefix (blocks_solid events) h).map readBlock

theorem pageEvents_write {events : List (EventType × Str)} {pieces : List Str}
    (h : pieces.flatten = writeEvents events) : pageEvents pieces = events.map pageView := by
  rw [pageEvents, EventStream.readAll_write (blocks_solid events) h, map_readBlock]

/-- The page has seen everything, and the event of the end last. -/
def SeesAll (lib : JsonLib) (st : SseContext) (pieces : List Str) : Prop :=
  ∃ text, lib.dump (finalResult st.result) = some text ∧
    pageEvents pieces = (st.shownEvents lib).map pageView ++ [(lit "done", text)]

theorem seesAll_of_eq {lib : JsonLib} {st : SseContext} {pieces : List Str}
    (hlength : (st.lastEvent lib).length = 1)
    (h : pageEvents pieces = (st.shownEvents lib ++ st.lastEvent lib).map pageView) :
    SeesAll lib st pieces := by
  rw [SseContext.lastEvent] at hlength h
  split at hlength
  · rename_i hdone
    rw [if_pos hdone] at h
    cases hdump : lib.dump (finalResult st.result) with
    | none =>
        rw [hdump] at hlength
        cases hlength
    | some text =>
        rw [hdump, List.map_append] at h
        exact ⟨text, hdump, h⟩
  · cases hlength

theorem done_not_shown {lib : JsonLib} (st : SseContext) (data : Str) :
    (lit "done", data) ∉ (st.shownEvents lib).map pageView := by
  intro hmem
  obtain ⟨event, hevent, heq⟩ := List.mem_map.mp hmem
  obtain ⟨resp, -, hresp⟩ := List.mem_filterMap.mp hevent
  have htext : event.1.text = lit "done" := congrArg Prod.fst heq
  have hne := shown_ne_done hresp
  revert htext hne
  cases event.1 <;> decide

theorem lastEvent_length {lib : JsonLib} (st : SseContext) : (st.lastEvent lib).length ≤ 1 := by
  rw [SseContext.lastEvent]
  split
  · exact Option.length_toList_le
  · exact Nat.zero_le _

/-- A front part that reaches into a last part of one element is everything. -/
theorem eq_of_prefix_last {α : Type*} {l front back : List α} {x : α} (h : l <+: front ++ back)
    (hx : x ∈ l) (hfront : x ∉ front) (hback : back.length ≤ 1) :
    back.length = 1 ∧ l = front ++ back := by
  obtain ⟨rest, rfl⟩ : front <+: l := by
    rcases List.prefix_or_prefix_of_prefix h (List.prefix_append _ _) with hshort | hlong
    · exact absurd (hshort.subset hx) hfront
    · exact hlong
  have hrest : rest <+: back := (List.prefix_append_right_inj _).mp h
  have hpos : 0 < rest.length := by
    refine List.length_pos_iff.mpr fun hnil => hfront ?_
    rwa [hnil, List.append_nil] at hx
  have hle := hrest.length_le
  exact ⟨by omega, by rw [hrest.eq_of_length (by omega)]⟩

/-- A chunk, a result of two lines and the end. -/
def demoEvents : List Event :=
  [.callback (lit "[STREAM]Hi\r"), .provide,
    .callback (lit "\n[TOOL_RESPONSE call_1] a\nb\n"),
    .finish { sessionId := lit "s", success := true, errorMessage := [], content := lit "Hi" },
    .provide, .close]

end JiuwenCore.HttpServer
