import JiuwenCore.Context.Pairing
import Mathlib.Data.List.DropRight

/-!
# The history of a session

`ContextEngine` as the owner of a history: adding messages to it and loading it
from the storage. A storage backend is what it keeps and two operations on that;
whether a call of `SaveMessage` succeeds is not looked at.
-/

namespace JiuwenCore.ContextEngine

open CallGroups

/-- `ContextStorageBase::IsValidMessage`. -/
def isValidMessage (msg : Message) : Bool :=
  if msg.role = [] then false
  else if msg.isAssistant then msg.content ≠ [] ∨ msg.toolCalls ≠ []
  else if msg.isTool then msg.toolCallId ≠ [] ∧ msg.content ≠ []
  else msg.content ≠ []

/-- A storage backend that keeps a `σ`. `loadHistory` returns what it has read and
whether it succeeds. -/
structure Storage (σ : Type) where
  saveMessage : σ → Message → σ
  loadHistory : σ → List Message × Bool

structure Engine (σ : Type) where
  memoryBuffer : List Message
  storage : σ

/-- The time of the event, unless the caller has supplied one. -/
def stamp (now : Str) (message : Message) : Message :=
  if message.timestamp = [] then { message with timestamp := now } else message

/-- `AddMessage` up to the call of the event sink. -/
def addMessage {σ : Type} (storage : Storage σ) (now : Str) (message : Message)
    (engine : Engine σ) : Engine σ :=
  if isValidMessage message then
    let stored := stamp now message
    { memoryBuffer := engine.memoryBuffer ++ [stored]
      storage := storage.saveMessage engine.storage stored }
  else engine

/-- Drops assistant messages with tool calls from the end. -/
def trimOrphanTrailingToolCalls (msgs : List Message) : List Message :=
  (msgs.reverse.dropWhile fun last => last.opensCalls).reverse

/-- `Initialize` of a new engine on what the storage keeps. -/
def initializeEngine {σ : Type} (storage : Storage σ) (kept : σ) : Engine σ :=
  let (loaded, succeeded) := storage.loadHistory kept
  { memoryBuffer := if succeeded then trimOrphanTrailingToolCalls loaded else loaded
    storage := kept }

/-! ## What is kept -/

@[simp] theorem stamp_role (now : Str) (m : Message) : (stamp now m).role = m.role := by
  unfold stamp
  split <;> rfl

@[simp] theorem stamp_content (now : Str) (m : Message) : (stamp now m).content = m.content := by
  unfold stamp
  split <;> rfl

@[simp] theorem stamp_toolCalls (now : Str) (m : Message) :
    (stamp now m).toolCalls = m.toolCalls := by
  unfold stamp
  split <;> rfl

@[simp] theorem stamp_toolCallId (now : Str) (m : Message) :
    (stamp now m).toolCallId = m.toolCallId := by
  unfold stamp
  split <;> rfl

@[simp] theorem stamp_isTool (now : Str) (m : Message) : (stamp now m).isTool ↔ m.isTool := by
  rw [Message.isTool, stamp_role]

@[simp] theorem stamp_callIds (now : Str) (m : Message) : (stamp now m).callIds = m.callIds := by
  rw [Message.callIds, stamp_toolCalls, Message.callIds]

theorem isValidMessage_stamp (now : Str) (m : Message) :
    isValidMessage (stamp now m) = isValidMessage m := by
  simp [isValidMessage, Message.isAssistant, Message.isTool]

/-- The history grows by the message as it is stamped, if that is valid. -/
theorem addMessage_buffer {σ : Type} (storage : Storage σ) (now : Str) (m : Message)
    (engine : Engine σ) :
    (addMessage storage now m engine).memoryBuffer =
      engine.memoryBuffer ++ [stamp now m].filter isValidMessage := by
  unfold addMessage
  split
  · rename_i hvalid
    rw [List.filter_cons_of_pos (by rwa [isValidMessage_stamp]), List.filter_nil]
  · rename_i hvalid
    rw [List.filter_cons_of_neg (by rwa [isValidMessage_stamp]), List.filter_nil,
      List.append_nil]

theorem prefix_trimOrphanTrailingToolCalls (msgs : List Message) :
    trimOrphanTrailingToolCalls msgs <+: msgs := by
  unfold trimOrphanTrailingToolCalls
  rw [← List.reverse_suffix, List.reverse_reverse]
  exact List.dropWhile_suffix _

theorem trimOrphanTrailingToolCalls_append (msgs more : List Message) :
    trimOrphanTrailingToolCalls (msgs ++ more) =
      if trimOrphanTrailingToolCalls more = [] then trimOrphanTrailingToolCalls msgs
      else msgs ++ trimOrphanTrailingToolCalls more := by
  simp only [trimOrphanTrailingToolCalls, List.reverse_append, List.dropWhile_append,
    List.isEmpty_iff, List.reverse_eq_nil_iff]
  split
  · rfl
  · rw [List.reverse_append, List.reverse_reverse]

theorem trimOrphanTrailingToolCalls_eq_nil {msgs : List Message} :
    trimOrphanTrailingToolCalls msgs = [] ↔ ∀ m ∈ msgs, m.opensCalls :=
  List.rdropWhile_eq_nil_iff.trans (by simp only [decide_eq_true_eq])

/-- What is dropped are messages that ask for tool calls. -/
theorem exists_trimOrphanTrailingToolCalls (msgs : List Message) :
    ∃ dropped, msgs = trimOrphanTrailingToolCalls msgs ++ dropped ∧
      ∀ m ∈ dropped, m.opensCalls :=
  ⟨msgs.rtakeWhile fun last => last.opensCalls, List.rdropWhile_append_rtakeWhile.symm,
    fun _ hm => of_decide_eq_true
      (List.mem_rtakeWhile_imp (p := fun last : Message => decide last.opensCalls) hm)⟩

/-- A session starts again with a history the worker persists, however much of it a
previous run has left. -/
theorem initializeEngine_react {σ : Type} (storage : Storage σ) (kept : σ)
    (h : ReactHistory (storage.loadHistory kept).1) :
    ReactHistory (initializeEngine storage kept).memoryBuffer := by
  simp only [initializeEngine]
  split
  · exact h.of_prefix (prefix_trimOrphanTrailingToolCalls _)
  · exact h

end JiuwenCore.ContextEngine
