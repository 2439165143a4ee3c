import JiuwenCore.JsonReader
import JiuwenCore.Lib.Recent
import JiuwenCore.Lib.Runs
import JiuwenCore.Lib.Trim
import JiuwenCore.Utils.ToolNames

/-!
# The turns of the Feishu bot

Every event that is new starts a turn: one thread runs the agent and sends a card for what it hears
of the tools, another one waits for its end and sends the answer. The turns of several events run
side by side, and the server delivers an event again until it is acknowledged.
-/

namespace JiuwenCore.FeishuBot

/-! ## Texts -/

/-- A space, a line feed or a carriage return. -/
def isAround (c : UInt8) : Bool := c = 32 ∨ c = 10 ∨ c = 13

def trimAround (s : Str) : Str := Trim.trim isAround s

def kTagToolCalls : Str := lit "[TOOL_CALLS]"
def kTagToolResponsePrefix : Str := lit "[TOOL_RESPONSE"
def kTagFinal : Str := lit "[FINAL]"
def kMaxToolResultChars : Nat := 6000

def tryExtractTag (text tag : Str) : Option Str :=
  (indexOf tag text).map fun pos => trimAround (text.drop (pos + tag.length))

def tryExtractToolResponseTag (text : Str) : Option Str :=
  (indexOf kTagToolResponsePrefix text).bind fun pos =>
    (findFrom [93] text pos).map fun close => trimAround (text.drop (close + 1))

/-- The note under a result that is too long, in UTF-8. -/
def cutNote : Str :=
  lit "\n..." ++ [239, 188, 136, 231, 187, 147, 230, 158, 156, 232, 191, 135, 233, 149, 191,
    239, 188, 140, 229, 183, 178, 230, 136, 170, 230, 150, 173, 239, 188, 137]

def limitText (s : Str) (maxChars : Nat) : Str :=
  if s.length ≤ maxChars then s else s.take maxChars ++ cutNote

/-- The loop of `SplitParagraphs`, in at most so many rounds. -/
def paragraphsFrom : Nat → Str → List Str
  | 0, _ => []
  | rounds + 1, text =>
      if text = [] then []
      else
        match indexOf (lit "\n\n") text with
        | none => [trimAround text].filter (· ≠ [])
        | some pos =>
            [trimAround (text.take pos)].filter (· ≠ []) ++
              paragraphsFrom rounds (text.drop (pos + 2))

def splitParagraphs (text : Str) : List Str :=
  let parts := paragraphsFrom (text.length + 1) text
  if parts = [] then [trimAround text].filter (· ≠ []) else parts

/-! ## Paragraphs -/

/-- The line ends between two paragraphs. -/
def gap : Str := lit "\n\n"

/-- A part of a text as a card shows it. -/
structure Paragraph (part : Str) : Prop where
  nonempty : part ≠ []
  trimmed : trimAround part = part
  whole : ¬ gap <:+: part

theorem paragraph_trimAround {chunk : Str} (hwhole : ¬ gap <:+: chunk) {part : Str}
    (h : part ∈ [trimAround chunk].filter (· ≠ [])) : Paragraph part := by
  obtain ⟨hmem, hne⟩ := List.mem_filter.mp h
  rw [List.mem_singleton.mp hmem] at hne ⊢
  exact ⟨of_decide_eq_true hne, Trim.trim_trim chunk,
    fun hgap => hwhole (hgap.trans (Trim.trim_infix chunk))⟩

theorem ink_trimAround (chunk : Str) :
    ([trimAround chunk].filter (· ≠ [])).flatten.filter (fun c => ¬ isAround c) =
      chunk.filter fun c => ¬ isAround c := by
  have htrim := Trim.filter_trim (p := isAround) chunk
  rw [← trimAround] at htrim
  by_cases hnil : trimAround chunk = []
  · rw [hnil] at htrim ⊢
    exact htrim
  · rw [List.filter_cons_of_pos (by simpa using hnil), List.filter_nil, List.flatten_cons,
      List.flatten_nil, List.append_nil]
    exact htrim

theorem not_infix_of_indexOf_none {text : Str} (h : indexOf gap text = none) :
    ¬ gap <:+: text := by
  rintro ⟨before, after, rfl⟩
  rw [List.append_assoc] at h
  exact indexOf_ne_none before gap after h

/-- There is no gap in front of the first one. -/
theorem not_infix_take {text : Str} {pos : Nat} (h : indexOf gap text = some pos) :
    ¬ gap <:+: text.take pos := by
  rintro ⟨before, after, heq⟩
  have htext : text = before ++ (gap ++ (after ++ text.drop pos)) := by
    rw [← List.append_assoc, ← List.append_assoc, heq, List.take_append_drop]
  have hle := indexOf_le h htext
  have hlength := congrArg List.length heq
  have hgap : gap.length = 2 := rfl
  simp only [List.length_append, List.length_take] at hlength
  omega

theorem paragraphsFrom_spec (rounds : Nat) {text : Str} (h : text.length < rounds) :
    (∀ part ∈ paragraphsFrom rounds text, Paragraph part) ∧
      (paragraphsFrom rounds text).flatten.filter (fun c => ¬ isAround c) =
        text.filter fun c => ¬ isAround c := by
  induction rounds generalizing text with
  | zero => exact absurd h (Nat.not_lt_zero _)
  | succ rounds ih =>
      rw [paragraphsFrom]
      split
      · rename_i hnil
        rw [hnil]
        exact ⟨by simp, rfl⟩
      · split
        · rename_i hnone
          exact ⟨fun part => paragraph_trimAround (not_infix_of_indexOf_none hnone),
            ink_trimAround text⟩
        · rename_i pos hsome
          obtain ⟨before, after, htext, hpos⟩ := indexOf_split hsome
          have hrest : (text.drop (pos + 2)).length < rounds := by
            rw [List.length_drop]
            have hlength := congrArg List.length htext
            simp only [List.length_append] at hlength
            have hgap : (lit "\n\n").length = 2 := rfl
            omega
          obtain ⟨hparts, hink⟩ := ih hrest
          constructor
          · intro part hpart
            rcases List.mem_append.mp hpart with hpart | hpart
            · exact paragraph_trimAround (not_infix_take hsome) hpart
            · exact hparts part hpart
          · have htake : text.take pos = before := by rw [htext, ← hpos, List.take_left]
            have hdrop : text.drop (pos + 2) = after := by
              rw [htext, ← hpos, ← List.drop_drop, List.drop_left]
              rfl
            rw [List.flatten_append, List.filter_append, ink_trimAround, hink, htake, hdrop, htext,
              List.filter_append, List.filter_append]
            rfl

/-- A text is split into parts that have no gap in them and nothing around them, and nothing is
lost but spaces and line ends. -/
theorem splitParagraphs_keeps (text : Str) :
    (∀ part ∈ splitParagraphs text, Paragraph part) ∧
      (splitParagraphs text).flatten.filter (fun c => ¬ isAround c) =
        text.filter fun c => ¬ isAround c := by
  obtain ⟨hparts, hink⟩ := paragraphsFrom_spec (text.length + 1) (Nat.lt_succ_self text.length)
  rw [splitParagraphs]
  split
  · rename_i hnil
    -- nothing but spaces and line ends was in the text, and there is no part of it
    rw [hnil] at hink
    have hempty : trimAround text = [] := Trim.trim_eq_nil hink.symm
    rw [hempty]
    exact ⟨by simp, hink⟩
  · exact ⟨hparts, hink⟩

/-! ## Cards -/

inductive Card where
  | status (text : Str)
  | toolCall (name : Str)
  /-- The parts behind the heading. -/
  | toolResult (parts : List Str)
  | finalAnswer (answer : Str)
  deriving DecidableEq, Repr

/-- "处理中". -/
def kStatusProcessing : Str := [229, 164, 132, 231, 144, 134, 228, 184, 173]

/-- "已完成". -/
def kStatusComplete : Str := [229, 183, 178, 229, 174, 140, 230, 136, 144]

/-- `JsonFieldAsString`, `none` where it throws. -/
def jsonFieldAsString (lib : JsonLib) (j : Json) (key : Str) : Option Str :=
  match j.member key with
  | none | some .null => some []
  | some (.str s) => some s
  | some value => lib.dump value

/-- The name on the card of a call; the body itself where it cannot be read. -/
def toolCallName (lib : JsonLib) (body : Str) : Str :=
  let name := ((lib.parse body).bind fun j => jsonFieldAsString lib j (lit "name")).getD body
  if name = [] then lit "tool" else name

/-- What `RouteAgentStreamChunk` makes of a chunk. -/
inductive Routed where
  | card (card : Card)
  | final (body : Str)
  | dropped
  deriving DecidableEq, Repr

def routeAgentStreamChunk (lib : JsonLib) (resp : Str) : Routed :=
  if resp = [] then .dropped
  else
    match tryExtractTag resp kTagToolCalls with
    | some body => .card (.toolCall (toolCallName lib body))
    | none =>
        match tryExtractToolResponseTag resp with
        | some result =>
            .card (.toolResult (splitParagraphs (limitText result kMaxToolResultChars)))
        | none =>
            match tryExtractTag resp kTagFinal with
            | some body => .final body
            | none => .dropped

structure SessionInvokeResult where
  success : Bool := true
  errorMessage : Str := []
  content : Str := []
  deriving DecidableEq, Repr

/-- The answer that is sent at the end. -/
def answerText (finalText : Str) (result : SessionInvokeResult) : Str :=
  if finalText = [] then
    if result.success = true ∧ result.content ≠ [] then result.content
    else if result.errorMessage ≠ [] then lit "Error: " ++ result.errorMessage
    else []
  else finalText

/-- The cards of `SpawnClosingSender`. -/
def closingCards (finalText : Str) (result : SessionInvokeResult) : List Card :=
  let answer := answerText finalText result
  (if answer = [] then [] else [.finalAnswer answer]) ++ [.status kStatusComplete]

/-! ## The turns -/

/-- `kFeishuDedupWindow`, in nanoseconds. -/
def kFeishuDedupWindow : Int := 5 * 60 * 10 ^ 9

/-- A turn, with what has been sent for it and what its agent has said. -/
structure Turn where
  chatId : Str
  messageId : Str
  started : Int
  finalText : Str := []
  /-- The agent is done. -/
  result : Option SessionInvokeResult := none
  closed : Bool := false
  cards : List Card := [.status kStatusProcessing]
  chunks : List Str := []
  deriving DecidableEq, Repr

structure Bot where
  clock : Int := 0
  seen : List (Str × Int) := []
  turns : List Turn := []
  deriving DecidableEq, Repr

inductive Event where
  | tick (now : Int)
  /-- The server delivers a message, maybe once more. -/
  | deliver (chatId messageId : Str)
  | chunk (turn : Nat) (resp : Str)
  | agentEnds (turn : Nat) (result : SessionInvokeResult)
  | close (turn : Nat)

section Steps

variable (lib : JsonLib)

def Turn.hear (resp : Str) (turn : Turn) : Option Turn :=
  if turn.result = none then
    let turn := { turn with chunks := turn.chunks ++ [resp] }
    match routeAgentStreamChunk lib resp with
    | .card card => some { turn with cards := turn.cards ++ [card] }
    | .final body => some { turn with finalText := body }
    | .dropped => some turn
  else none

def Turn.agentEnds (result : SessionInvokeResult) (turn : Turn) : Option Turn :=
  if turn.result = none then some { turn with result := some result } else none

def Turn.close (turn : Turn) : Option Turn :=
  if turn.closed = true then none
  else
    turn.result.map fun result =>
      { turn with closed := true, cards := turn.cards ++ closingCards turn.finalText result }

def Bot.onTurn (bot : Bot) (k : Nat) (act : Turn → Option Turn) : Option Bot :=
  (bot.turns[k]?).bind fun turn =>
    (act turn).map fun turn => { bot with turns := bot.turns.set k turn }

def step (bot : Bot) : Event → Option Bot
  | .tick now => if bot.clock ≤ now then some { bot with clock := now } else none
  | .deliver chatId messageId =>
      let registered := Recent.register kFeishuDedupWindow bot.clock messageId bot.seen
      if registered.2 = true then
        some { bot with
          seen := registered.1
          turns := bot.turns ++
            [{ chatId := chatId, messageId := messageId, started := bot.clock }] }
      else some { bot with seen := registered.1 }
  | .chunk k resp => bot.onTurn k (Turn.hear lib resp)
  | .agentEnds k result => bot.onTurn k (Turn.agentEnds result)
  | .close k => bot.onTurn k Turn.close

end Steps

section Runs

variable {lib : JsonLib}

theorem onTurn_eq {bot bot' : Bot} {k : Nat} {act : Turn → Option Turn}
    (h : bot.onTurn k act = some bot') :
    ∃ turn turn', bot.turns[k]? = some turn ∧ act turn = some turn' ∧
      bot' = { bot with turns := bot.turns.set k turn' } := by
  obtain ⟨turn, hturn, hact⟩ := Option.bind_eq_some_iff.mp h
  obtain ⟨turn', hturn', heq⟩ := Option.map_eq_some_iff.mp hact
  exact ⟨turn, turn', hturn, hturn', heq.symm⟩

/-- The turns after a step are those of before, one of them further on, or one more. -/
theorem step_turns {bot bot' : Bot} {event : Event} (h : step lib bot event = some bot')
    {turn' : Turn} (hmem : turn' ∈ bot'.turns) :
    turn' ∈ bot.turns ∨
      (∃ chatId messageId,
        turn' = { chatId := chatId, messageId := messageId, started := bot.clock }) ∨
      ∃ turn ∈ bot.turns, (∃ resp, turn.hear lib resp = some turn') ∨
        (∃ result, turn.agentEnds result = some turn') ∨ turn.close = some turn' := by
  have hact : ∀ {k : Nat} {act : Turn → Option Turn}, bot.onTurn k act = some bot' →
      turn' ∈ bot.turns ∨ ∃ turn ∈ bot.turns, act turn = some turn' := by
    intro k act hstep
    obtain ⟨turn, next, hturn, hnext, rfl⟩ := onTurn_eq hstep
    rcases List.mem_or_eq_of_mem_set hmem with hold | rfl
    · exact Or.inl hold
    · exact Or.inr ⟨turn, List.mem_of_getElem? hturn, hnext⟩
  cases event with
  | tick now =>
      obtain ⟨-, heq⟩ := Option.ite_none_right_eq_some.mp h
      cases heq
      exact Or.inl hmem
  | deliver chatId messageId =>
      rw [step] at h
      split at h
      · cases h
        rcases List.mem_append.mp hmem with hold | hnew
        · exact Or.inl hold
        · exact Or.inr (Or.inl ⟨chatId, messageId, List.mem_singleton.mp hnew⟩)
      · cases h
        exact Or.inl hmem
  | chunk k resp =>
      rcases hact h with hold | ⟨turn, hturn, hnext⟩
      · exact Or.inl hold
      · exact Or.inr (Or.inr ⟨turn, hturn, Or.inl ⟨resp, hnext⟩⟩)
  | agentEnds k result =>
      rcases hact h with hold | ⟨turn, hturn, hnext⟩
      · exact Or.inl hold
      · exact Or.inr (Or.inr ⟨turn, hturn, Or.inr (Or.inl ⟨result, hnext⟩)⟩)
  | close k =>
      rcases hact h with hold | ⟨turn, hturn, hnext⟩
      · exact Or.inl hold
      · exact Or.inr (Or.inr ⟨turn, hturn, Or.inr (Or.inr hnext)⟩)

/-! ## The cards of a turn -/

def cardOf (lib : JsonLib) (resp : Str) : Option Card :=
  match routeAgentStreamChunk lib resp with
  | .card card => some card
  | .final _ | .dropped => none

def finalOf (lib : JsonLib) (resp : Str) : Option Str :=
  match routeAgentStreamChunk lib resp with
  | .final body => some body
  | .card _ | .dropped => none

/-- The cards that are due before the end. -/
def openingCards (lib : JsonLib) (chunks : List Str) : List Card :=
  .status kStatusProcessing :: chunks.filterMap (cardOf lib)

/-- The cards are those of what was heard, in its order, and the closing ones behind them. -/
structure Orderly (lib : JsonLib) (turn : Turn) : Prop where
  finalText : turn.finalText = (turn.chunks.filterMap (finalOf lib)).getLastD []
  running : turn.closed = false → turn.cards = openingCards lib turn.chunks
  closed : turn.closed = true → ∃ result, turn.result = some result ∧
    turn.cards = openingCards lib turn.chunks ++ closingCards turn.finalText result

theorem Orderly.hear {turn turn' : Turn} (h : Orderly lib turn) {resp : Str}
    (hstep : turn.hear lib resp = some turn') : Orderly lib turn' := by
  obtain ⟨hresult, hstep⟩ := Option.ite_none_right_eq_some.mp hstep
  have hopen : turn.closed = false := by
    by_contra hclosed
    obtain ⟨result, hsome, -⟩ := h.closed (by simpa using hclosed)
    rw [hresult] at hsome
    cases hsome
  have hcards := h.running hopen
  have hfinal := h.finalText
  have hclosed : ∀ {t : Turn}, t.closed = turn.closed → t.closed = true →
      ∃ result, t.result = some result ∧
        t.cards = openingCards lib t.chunks ++ closingCards t.finalText result := by
    intro t heq htrue
    rw [heq, hopen] at htrue
    cases htrue
  cases hroute : routeAgentStreamChunk lib resp with
  | card card =>
      have hcard : cardOf lib resp = some card := by rw [cardOf, hroute]
      have hnone : finalOf lib resp = none := by rw [finalOf, hroute]
      rw [hroute] at hstep
      cases hstep
      refine ⟨?_, fun _ => ?_, hclosed rfl⟩
      · dsimp only
        rw [List.filterMap_append, List.filterMap_cons_none hnone, List.filterMap_nil,
          List.append_nil, hfinal]
      · dsimp only
        rw [openingCards, List.filterMap_append, List.filterMap_cons_some hcard,
          List.filterMap_nil, hcards]
        rfl
  | final body =>
      have hcard : cardOf lib resp = none := by rw [cardOf, hroute]
      have hsome : finalOf lib resp = some body := by rw [finalOf, hroute]
      rw [hroute] at hstep
      cases hstep
      refine ⟨?_, fun _ => ?_, hclosed rfl⟩
      · dsimp only
        rw [List.filterMap_append, List.filterMap_cons_some hsome, List.filterMap_nil,
          List.getLastD_concat]
      · dsimp only
        rw [openingCards, List.filterMap_append, List.filterMap_cons_none hcard,
          List.filterMap_nil, List.append_nil, hcards, openingCards]
  | dropped =>
      have hcard : cardOf lib resp = none := by rw [cardOf, hroute]
      have hnone : finalOf lib resp = none := by rw [finalOf, hroute]
      rw [hroute] at hstep
      cases hstep
      refine ⟨?_, fun _ => ?_, hclosed rfl⟩
      · dsimp only
        rw [List.filterMap_append, List.filterMap_cons_none hnone, List.filterMap_nil,
          List.append_nil, hfinal]
      · dsimp only
        rw [openingCards, List.filterMap_append, List.filterMap_cons_none hcard,
          List.filterMap_nil, List.append_nil, hcards, openingCards]

theorem Orderly.agentEnds {turn turn' : Turn} (h : Orderly lib turn) {result : SessionInvokeResult}
    (hstep : turn.agentEnds result = some turn') : Orderly lib turn' := by
  obtain ⟨hresult, hstep⟩ := Option.ite_none_right_eq_some.mp hstep
  cases hstep
  refine ⟨h.finalText, h.running, fun hclosed => ?_⟩
  obtain ⟨_, hsome, -⟩ := h.closed hclosed
  rw [hresult] at hsome
  cases hsome

theorem Orderly.close {turn turn' : Turn} (h : Orderly lib turn)
    (hstep : turn.close = some turn') : Orderly lib turn' := by
  obtain ⟨hopen, hstep⟩ := Option.ite_none_left_eq_some.mp hstep
  obtain ⟨result, hresult, heq⟩ := Option.map_eq_some_iff.mp hstep
  cases heq
  have hcards := h.running (by simpa using hopen)
  refine ⟨h.finalText, fun hclosed => absurd hclosed (by simp), fun _ => ⟨result, hresult, ?_⟩⟩
  dsimp only
  rw [hcards]

/-- A call, its result and an answer, with another turn in between. -/
def demoChunks : List Event :=
  [.deliver (lit "chat") (lit "m1"), .chunk 0 (lit "[TOOL_CALLS] ls"),
    .deliver (lit "chat") (lit "m2"), .chunk 0 (lit "[TOOL_RESPONSE ls] a\n\nb"),
    .chunk 0 (lit "[FINAL] done"), .agentEnds 0 {}, .close 0]

/-- The times at which the messages of the turns were taken in. -/
def startsOf (turns : List Turn) : List (Str × Int) :=
  turns.map fun turn => (turn.messageId, turn.started)

/-- The queue is what is left of the turns. -/
structure Counted (bot : Bot) : Prop where
  tracks : Recent.Tracks kFeishuDedupWindow bot.seen (startsOf bot.turns) bot.clock
  spaced : Recent.Spaced kFeishuDedupWindow (startsOf bot.turns)

theorem startsOf_set {turns : List Turn} {k : Nat} {turn turn' : Turn}
    (hk : turns[k]? = some turn) (hid : turn'.messageId = turn.messageId)
    (hstarted : turn'.started = turn.started) : startsOf (turns.set k turn') = startsOf turns := by
  refine List.ext_getElem? fun i => ?_
  rw [startsOf, startsOf, List.getElem?_map, List.getElem?_map, List.getElem?_set]
  by_cases hi : k = i
  · subst hi
    rw [if_pos rfl, if_pos (List.getElem?_eq_some_iff.mp hk).1, hk, Option.map_some,
      Option.map_some, hid, hstarted]
  · rw [if_neg hi]

theorem hear_same {turn turn' : Turn} {resp : Str} (h : turn.hear lib resp = some turn') :
    turn'.messageId = turn.messageId ∧ turn'.started = turn.started := by
  obtain ⟨-, h⟩ := Option.ite_none_right_eq_some.mp h
  split at h <;> cases h <;> exact ⟨rfl, rfl⟩

theorem agentEnds_same {turn turn' : Turn} {result : SessionInvokeResult}
    (h : turn.agentEnds result = some turn') :
    turn'.messageId = turn.messageId ∧ turn'.started = turn.started := by
  obtain ⟨-, h⟩ := Option.ite_none_right_eq_some.mp h
  cases h
  exact ⟨rfl, rfl⟩

theorem close_same {turn turn' : Turn} (h : turn.close = some turn') :
    turn'.messageId = turn.messageId ∧ turn'.started = turn.started := by
  obtain ⟨-, h⟩ := Option.ite_none_left_eq_some.mp h
  obtain ⟨result, -, heq⟩ := Option.map_eq_some_iff.mp h
  cases heq
  exact ⟨rfl, rfl⟩

theorem Counted.onTurn {bot bot' : Bot} (h : Counted bot) {k : Nat} {act : Turn → Option Turn}
    (hsame : ∀ turn turn', act turn = some turn' →
      turn'.messageId = turn.messageId ∧ turn'.started = turn.started)
    (hstep : bot.onTurn k act = some bot') : Counted bot' := by
  obtain ⟨turn, turn', hturn, hact, rfl⟩ := onTurn_eq hstep
  obtain ⟨hid, hstarted⟩ := hsame turn turn' hact
  have hstarts := startsOf_set hturn hid hstarted
  exact ⟨hstarts ▸ h.tracks, hstarts ▸ h.spaced⟩

/-- What a delivery does. -/
theorem Counted.deliver {bot bot' : Bot} (h : Counted bot) {chatId messageId : Str}
    (hstep : step lib bot (.deliver chatId messageId) = some bot') :
    Counted bot' ∧
      ((bot'.turns = bot.turns ∧ ∃ turn ∈ bot.turns, turn.messageId = messageId ∧
          bot.clock - turn.started ≤ kFeishuDedupWindow) ∨
        (bot'.turns = bot.turns ++
            [{ chatId := chatId, messageId := messageId, started := bot.clock }] ∧
          ∀ turn ∈ bot.turns, turn.messageId = messageId →
            kFeishuDedupWindow < bot.clock - turn.started)) := by
  have hiff := h.tracks.register_iff messageId
  have htracks := h.tracks.register messageId
  rw [step] at hstep
  split at hstep
  · rename_i hfresh
    cases hstep
    have hnew := hiff.mp hfresh
    rw [if_pos hfresh] at htracks
    have hstarts : startsOf (bot.turns ++
        [{ chatId := chatId, messageId := messageId, started := bot.clock }]) =
          startsOf bot.turns ++ [(messageId, bot.clock)] := by
      rw [startsOf, List.map_append]
      rfl
    refine ⟨⟨hstarts ▸ htracks, hstarts ▸ h.spaced.concat hnew⟩, Or.inr ⟨rfl, ?_⟩⟩
    intro turn hturn hid
    exact hnew (turn.messageId, turn.started) (List.mem_map_of_mem hturn) hid
  · rename_i hknown
    cases hstep
    rw [if_neg hknown] at htracks
    refine ⟨⟨htracks, h.spaced⟩, Or.inl ⟨rfl, ?_⟩⟩
    rw [hiff] at hknown
    push Not at hknown
    obtain ⟨entry, hentry, hid, hlate⟩ := hknown
    obtain ⟨turn, hturn, rfl⟩ := List.mem_map.mp hentry
    exact ⟨turn, hturn, hid, hlate⟩

theorem Counted.step {bot bot' : Bot} (h : Counted bot) {event : Event}
    (hstep : FeishuBot.step lib bot event = some bot') : Counted bot' := by
  cases event with
  | tick now =>
      obtain ⟨hle, heq⟩ := Option.ite_none_right_eq_some.mp hstep
      cases heq
      exact ⟨h.tracks.later hle, h.spaced⟩
  | deliver chatId messageId => exact (h.deliver hstep).1
  | chunk k resp => exact h.onTurn (fun _ _ => hear_same) hstep
  | agentEnds k result => exact h.onTurn (fun _ _ => agentEnds_same) hstep
  | close k => exact h.onTurn (fun _ _ => close_same) hstep

/-- In every run two turns for one message lie more than five minutes apart, and a delivery starts
a turn exactly when no turn for its message was started in the last five minutes. -/
theorem turns_once {bot : Bot} (h : Run (step lib) AnyStep {} bot) :
    (bot.turns.Pairwise fun turn later =>
        turn.messageId = later.messageId → kFeishuDedupWindow < later.started - turn.started) ∧
      ∀ chatId messageId bot', step lib bot (.deliver chatId messageId) = some bot' →
        (bot'.turns = bot.turns ∧ ∃ turn ∈ bot.turns, turn.messageId = messageId ∧
            bot.clock - turn.started ≤ kFeishuDedupWindow) ∨
          (bot'.turns = bot.turns ++
              [{ chatId := chatId, messageId := messageId, started := bot.clock }] ∧
            ∀ turn ∈ bot.turns, turn.messageId = messageId →
              kFeishuDedupWindow < bot.clock - turn.started) := by
  have hcounted : Counted bot := by
    refine h.invariant (motive := Counted) ⟨Recent.Tracks.nil 0, List.Pairwise.nil⟩ ?_
    intro bot event bot' ih _ hstep
    exact ih.step hstep
  exact ⟨List.pairwise_map.mp hcounted.spaced, fun _ _ _ hstep => (hcounted.deliver hstep).2⟩

/-- A message that is delivered three times, the last time after the window. -/
def demoDeliveries : List Event :=
  [.deliver (lit "chat") (lit "m1"), .tick (5 * 60 * 10 ^ 9), .deliver (lit "chat") (lit "m1"),
    .tick (5 * 60 * 10 ^ 9 + 1), .deliver (lit "chat") (lit "m1")]

theorem turns_once_demo :
    ∃ bot, Run (step readerLib) AnyStep {} bot ∧ bot.turns.length = 2 ∧
      bot.turns.Pairwise fun turn later =>
        turn.messageId = later.messageId → kFeishuDedupWindow < later.started - turn.started := by
  obtain ⟨bot, hrun, hlength⟩ := exists_run_of_any (step readerLib) AnyStep ({} : Bot)
    demoDeliveries (p := fun bot => bot.turns.length = 2) (by decide +kernel)
  exact ⟨bot, hrun, hlength, (turns_once hrun).1⟩

end Runs

end JiuwenCore.FeishuBot
