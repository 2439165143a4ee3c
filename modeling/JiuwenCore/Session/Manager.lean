import JiuwenCore.Context.Engine
import JiuwenCore.Session.Paths
import JiuwenCore.Utils.Encoding
import Mathlib.Data.List.AList

/-!
# The session manager

`SessionManager` as a transition system. A step is what a thread does under one lock:
the stations of an `Invoke` at the concurrency gate, at the session registry and at the
lock of its session, a reload, the parts of a removal, and a restart of the process. The
order of the steps is left open.

Sessions are stored as JSON. The disk maps a session directory to the rows of its history
file; other directories are those on the way to a session directory.
-/

namespace JiuwenCore.Session

open ContextEngine

/-! ## Surroundings -/

/-- What the manager reads of its configuration. -/
structure AgentConfig where
  dataBasePath : Str := []
  maxConcurrentSessions : Int32 := 3
  deriving DecidableEq, Repr

/-- Where a process starts. -/
structure Env where
  /-- The current directory. -/
  currentPath : Str
  /-- What `fs::canonical` makes of the base path, `none` where it throws. -/
  canonical : Option Str
  deriving DecidableEq, Repr

/-- `fs::absolute`. -/
def Env.absolute (env : Env) (path : Str) : Str :=
  if path.head? = some 47 then path else pathJoin env.currentPath path

/-- The base path `Initialize` stores. -/
def Env.normalize (env : Env) (dataBasePath : Str) : Str :=
  env.canonical.getD (env.absolute (basePathOf dataBasePath))

/-- The histories on the disk, by session directory. -/
abbrev Disk := AList (fun _ : Location => List Message)

namespace Disk

def createDirectories (dir : Location) (disk : Disk) : Disk :=
  disk.insert dir ((disk.lookup dir).getD [])

/-- Puts back what an engine keeps in `dir`, which may be missing. -/
def write (dir : Location) (kept : Option (List Message)) (disk : Disk) : Disk :=
  match kept with
  | some rows => disk.insert dir rows
  | none => disk

/-- Takes away the directories below `dir` that meet `gone`. -/
def removeBelow (dir : Location) (gone : Location → Bool) (disk : Disk) : Disk where
  entries := disk.entries.filter fun row => ¬ (dir <+: row.1 ∧ gone row.1)
  nodupKeys := disk.nodupKeys.sublist List.filter_sublist

/-- The names of the directories in `dir`. -/
def namesIn (dir : Location) (disk : Disk) : List Str :=
  (disk.keys.filterMap fun key => if dir <+: key then key[dir.length]? else none).dedup

end Disk

/-- The texts of a message that go into its row. -/
def messageTexts (m : Message) : List Str :=
  [m.role, m.content, m.toolCallId, m.toolName, m.payloadRef, m.timestamp] ++
    m.toolCalls.flatMap fun tc => [tc.id, tc.name, tc.argumentsJson]

/-- A message whose row can be dumped. -/
def Utf8Message (m : Message) : Prop := ∀ text ∈ messageTexts m, Utf8.Text text

instance (m : Message) : Decidable (Utf8Message m) :=
  inferInstanceAs (Decidable (∀ text ∈ messageTexts m, Utf8.Text text))

/-- `JsonStorage` in a directory that may be missing. -/
def jsonStorage : Storage (Option (List Message)) where
  saveMessage := fun kept m =>
    if isValidMessage m ∧ Utf8Message m then kept.map (· ++ [m]) else kept
  loadHistory := fun kept => (kept.getD [], true)

/-! ## The state -/

/-- Who speaks: a session named by its id, or a chat of a channel. -/
inductive Conversation where
  | session (sessionId : Str)
  | chat (channel chatId : Str)
  deriving DecidableEq, Repr

def Conversation.sessionId : Conversation → Str
  | session sessionId => sessionId
  | chat channel chatId => makeSessionKey channel chatId

/-- The conversation of an `InvokeChannel`. -/
def conversationOf (channel chatId sessionId : Str) : Conversation :=
  if sessionId = [] then .chat channel chatId else .session sessionId

structure SessionInvokeResult where
  sessionId : Str
  success : Bool
  errorMessage : Str
  content : Str
  deriving DecidableEq, Repr

/-- An entry of the registry. Entries stay on the heap when they are erased from it;
mutexes hold the number of the call that owns them. -/
structure SessionEntry where
  sessionId : Str
  agent : Option Nat
  storagePath : Location
  memoryBuffer : List Message
  invokeMutex : Option Nat := none
  isBusy : Bool := false
  deriving DecidableEq, Repr

/-- How far an `Invoke` has come. `heard` tells whether a waiting one has been notified
since the gate became free. -/
inductive Phase where
  | arrived
  | testing
  | waiting (heard : Bool)
  | admitted
  | bound (entry agent : Nat)
  | running (entry agent : Nat)
  | leaving (entry : Option Nat) (result : SessionInvokeResult)
  | released (entry : Option Nat) (result : SessionInvokeResult)
  | returned (result : SessionInvokeResult)
  | thrown
  deriving DecidableEq, Repr

structure Call where
  conversation : Conversation
  phase : Phase
  deriving DecidableEq, Repr

/-- How far a `RemoveSession` has come that was not refused. -/
inductive RemovalPhase where
  | unreserved
  | erased (removed : Option Nat)
  | checked (skipDisk : Bool)
  | done
  deriving DecidableEq, Repr

structure Removal where
  sessionId : Str
  sessionDir : Location
  phase : RemovalPhase := .unreserved
  deriving DecidableEq, Repr

/-- What has happened, over restarts. The manager does not keep it. -/
inductive Record where
  | called (conversation : Conversation)
  | opened (sessionId : Str)
  | added (conversation : Conversation) (message : Message)
  | removed (sessionId : Str)
  deriving DecidableEq, Repr

structure State where
  currentPath : Str := []
  initialized : Bool := false
  config : AgentConfig := {}
  agent : Option Nat := none
  draining : List Nat := []
  agentsMade : Nat := 0
  gateMutex : Option Nat := none
  concurrentCount : Nat := 0
  maxConcurrent : Nat := 0
  sessions : AList (fun _ : Str => Nat) := ∅
  entries : List SessionEntry := []
  reservedSessions : List Str := [kDefaultSessionId]
  calls : List Call := []
  removals : List Removal := []
  disk : Disk := ∅
  journal : List Record := []

namespace State

def phaseOf (st : State) (i : Nat) : Option Phase := (st.calls[i]?).map (·.phase)

def setPhase (i : Nat) (phase : Phase) (st : State) : State :=
  { st with calls := st.calls.modify i fun call => { call with phase := phase } }

def modifyEntry (e : Nat) (f : SessionEntry → SessionEntry) (st : State) : State :=
  { st with entries := st.entries.modify e f }

def setRemovalPhase (k : Nat) (phase : RemovalPhase) (st : State) : State :=
  { st with removals := st.removals.modify k fun removal => { removal with phase := phase } }

def cwd (st : State) : Location := locate [] st.currentPath

/-- The place of the base path. -/
def root (st : State) : Location := locate st.cwd (basePathOf st.config.dataBasePath)

/-- The directory the manager computes for a session. -/
def sessionDirectory (st : State) (sessionId : Str) : Location :=
  sessionLocation st.cwd st.config.dataBasePath sessionId

end State

/-! ## The registry -/

/-- The new entry of `FindOrCreateEntry`, its history loaded from the directory. -/
def newEntry (sessionId : Str) (st : State) : SessionEntry where
  sessionId := sessionId
  agent := st.agent
  storagePath := st.sessionDirectory sessionId
  memoryBuffer :=
    (initializeEngine jsonStorage (st.disk.lookup (st.sessionDirectory sessionId))).memoryBuffer

def createEntry (sessionId : Str) (st : State) : State :=
  { st with
    disk := st.disk.createDirectories (st.sessionDirectory sessionId)
    entries := st.entries ++ [newEntry sessionId st]
    sessions := st.sessions.insert sessionId st.entries.length
    journal := st.journal ++ [.opened sessionId] }

/-- `FindOrCreateEntry` where nothing throws: the entry of a session, by its place on
the heap. -/
def findOrCreateEntry (sessionId : Str) (st : State) : State × Nat :=
  match st.sessions.lookup sessionId with
  | some e => (st, e)
  | none => (createEntry sessionId st, st.entries.length)

/-- How `FindOrCreateEntry` ends; an exception may come before or after the directory
has been made. -/
inductive Lookup where
  | found
  | throws (made : Bool)
  deriving DecidableEq, Repr

def makeDirectory (sessionId : Str) (st : State) : State :=
  { st with disk := st.disk.createDirectories (st.sessionDirectory sessionId) }

/-- What an exception out of `FindOrCreateEntry` leaves behind. -/
def abandonEntry (sessionId : Str) (made : Bool) (st : State) : State :=
  if made ∧ st.sessions.lookup sessionId = none then makeDirectory sessionId st else st

/-- `FindOrCreateEntry` for a caller that does not use the entry. -/
def lookupEntry (sessionId : Str) (st : State) : Lookup → State
  | .found => (findOrCreateEntry sessionId st).1
  | .throws made => abandonEntry sessionId made st

/-- Binds an entry of a draining agent to the active one. -/
def rebind (st : State) (entry : SessionEntry) : SessionEntry :=
  match entry.agent with
  | some a => if a ∈ st.draining then { entry with agent := st.agent } else entry
  | none => entry

/-! ## The concurrency gate -/

/-- `maxConcurrent_` for a configured limit. -/
def limitOf (config : AgentConfig) : Nat :=
  if config.maxConcurrentSessions > 0 then config.maxConcurrentSessions.toInt.toNat else 0

/-- The limit is disabled or not reached. -/
def State.GateFree (st : State) : Prop :=
  st.maxConcurrent = 0 ∨ st.concurrentCount < st.maxConcurrent

instance (st : State) : Decidable st.GateFree := inferInstanceAs (Decidable (_ ∨ _))

def Call.hear (heard : Bool) (call : Call) : Call :=
  match call.phase with
  | .waiting _ => { call with phase := .waiting heard }
  | _ => call

def enterGate (i : Nat) (st : State) : Option State :=
  if st.phaseOf i = some .arrived ∧ st.gateMutex = none then
    if st.maxConcurrent > 0 then
      some (State.setPhase i .testing { st with gateMutex := some i })
    else
      some (State.setPhase i .admitted { st with concurrentCount := st.concurrentCount + 1 })
  else none

/-- The predicate of the wait, which is tested under the lock. -/
def testGate (i : Nat) (st : State) : Option State :=
  if st.phaseOf i = some .testing then
    if st.concurrentCount < st.maxConcurrent then
      some (State.setPhase i .admitted
        { st with concurrentCount := st.concurrentCount + 1, gateMutex := none })
    else some (State.setPhase i (.waiting false) { st with gateMutex := none })
  else none

/-- A waiting call takes the lock back, notified or not. -/
def wake (i : Nat) (st : State) : Option State :=
  match st.phaseOf i with
  | some (.waiting _) =>
      if st.gateMutex = none then
        some (State.setPhase i .testing { st with gateMutex := some i })
      else none
  | _ => none

/-! ## A turn -/

/-- The call enters; before `Initialize` it is refused at once. -/
def arrive (conversation : Conversation) (st : State) : State :=
  { st with
    journal := st.journal ++ [.called conversation]
    calls := st.calls ++
      [{ conversation := conversation
         phase :=
          if st.initialized then .arrived
          else .returned
            { sessionId := conversation.sessionId
              success := false
              errorMessage := lit "Not initialized"
              content := lit "[ERROR] SessionManager not initialized" } }] }

/-- The critical section in which a call gets its entry and its agent. -/
def bindCall (i : Nat) (sessionId : Str) (st : State) : State :=
  let (st, e) := findOrCreateEntry sessionId st
  let st := st.modifyEntry e (rebind st)
  match (st.entries[e]?).bind (·.agent) with
  | some a => st.setPhase i (.bound e a)
  | none =>
      st.setPhase i (.leaving none
        { sessionId := sessionId
          success := false
          errorMessage := lit "Create failed"
          content := lit "[ERROR] Failed to create session" })

def findEntry (i : Nat) (outcome : Lookup) (st : State) : Option State :=
  match st.calls[i]? with
  | some ⟨conversation, .admitted⟩ =>
      match outcome with
      | .found => some (bindCall i conversation.sessionId st)
      | .throws made =>
          some (State.setPhase i .thrown (abandonEntry conversation.sessionId made st))
  | _ => none

def lockTurn (i : Nat) (st : State) : Option State :=
  match st.phaseOf i with
  | some (.bound e a) =>
      if (st.entries[e]?).bind (·.invokeMutex) = none then
        some ((st.modifyEntry e fun entry =>
          { entry with invokeMutex := some i, isBusy := true }).setPhase i (.running e a))
      else none
  | _ => none

/-- `AddMessage` of the session the turn runs in. -/
def recordMessage (e : Nat) (conversation : Conversation) (now : Str) (m : Message)
    (entry : SessionEntry) (st : State) : State :=
  let engine := ContextEngine.addMessage jsonStorage now m
    { memoryBuffer := entry.memoryBuffer, storage := st.disk.lookup entry.storagePath }
  { st.modifyEntry e fun entry => { entry with memoryBuffer := engine.memoryBuffer } with
    disk := st.disk.write entry.storagePath engine.storage
    journal := st.journal ++
      if isValidMessage m then [.added conversation (stamp now m)] else [] }

def addMessage (i : Nat) (now : Str) (m : Message) (st : State) : Option State :=
  match st.calls[i]? with
  | some ⟨conversation, .running e _⟩ =>
      (st.entries[e]?).map fun entry => recordMessage e conversation now m entry st
  | _ => none

/-- How the agent's `Invoke` ends. -/
inductive TurnEnd where
  | returns (text : Str)
  | throwsStd (what : Str)
  | throwsOther
  deriving DecidableEq, Repr

/-- An exception that is no `std::exception` leaves `Invoke` and unlocks the session on
its way. -/
def endTurn (i : Nat) (outcome : TurnEnd) (st : State) : Option State :=
  match st.calls[i]? with
  | some ⟨conversation, .running e _⟩ =>
      match outcome with
      | .returns text =>
          some ((st.modifyEntry e fun entry => { entry with isBusy := false }).setPhase i
            (.leaving (some e)
              { sessionId := conversation.sessionId, success := true, errorMessage := []
                content := text }))
      | .throwsStd what =>
          some ((st.modifyEntry e fun entry => { entry with isBusy := false }).setPhase i
            (.leaving (some e)
              { sessionId := conversation.sessionId, success := false, errorMessage := what
                content := [] }))
      | .throwsOther =>
          some ((st.modifyEntry e fun entry => { entry with invokeMutex := none }).setPhase i
            .thrown)
  | _ => none

/-- `releaseGate`, which notifies every waiting call. -/
def releaseGate (i : Nat) (st : State) : Option State :=
  match st.phaseOf i with
  | some (.leaving entry result) =>
      if st.gateMutex = none then
        some (State.setPhase i (.released entry result)
          { st with
            concurrentCount := st.concurrentCount - 1
            calls := st.calls.map (Call.hear true) })
      else none
  | _ => none

def unlock (st : State) : Option Nat → State
  | some e => st.modifyEntry e fun entry => { entry with invokeMutex := none }
  | none => st

/-- The return, which unlocks the session. -/
def finish (i : Nat) (st : State) : Option State :=
  match st.phaseOf i with
  | some (.released entry result) => some ((unlock st entry).setPhase i (.returned result))
  | _ => none

/-! ## Reload, removal and restart -/

/-- `ReloadAgent`. It notifies nobody: calls that wait when the gate becomes free have
not heard of it. -/
def reloadAgent (newConfig : AgentConfig) (constructed : Bool) (st : State) : State :=
  if st.initialized ∧ constructed then
    let st' := { st with
      config := newConfig
      maxConcurrent := limitOf newConfig
      draining := st.agent.toList ++ st.draining
      agent := some st.agentsMade
      agentsMade := st.agentsMade + 1 }
    if st'.GateFree ∧ ¬ st.GateFree then
      { st' with calls := st.calls.map (Call.hear false) }
    else st'
  else st

def registerReservedSession (id : Str) (st : State) : State :=
  if id = [] then st else { st with reservedSessions := st.reservedSessions.insert id }

/-- `RemoveSession` up to the check of the reserved ids; the directory is computed without
a lock. -/
def checkReserved (sessionId : Str) (st : State) : State :=
  if sessionId = [] ∨ sessionId ∈ st.reservedSessions then st
  else
    { st with
      removals := st.removals ++
        [{ sessionId := sessionId, sessionDir := st.sessionDirectory sessionId }] }

def eraseEntry (k : Nat) (st : State) : Option State :=
  match st.removals[k]? with
  | some ⟨sessionId, _, .unreserved⟩ =>
      some (State.setRemovalPhase k (.erased (st.sessions.lookup sessionId))
        { st with sessions := st.sessions.erase sessionId })
  | _ => none

/-- Whether the erased entry is in the hands of a turn. -/
def State.held (st : State) : Option Nat → Bool
  | some e => ((st.entries[e]?).bind (·.invokeMutex)).isSome
  | none => false

def tryLock (k : Nat) (st : State) : Option State :=
  match st.removals[k]? with
  | some ⟨_, _, .erased removed⟩ => some (st.setRemovalPhase k (.checked (st.held removed)))
  | _ => none

/-- How `remove_all` ends: it may fail with some of the directories gone. -/
inductive Deletion where
  | complete
  | fails (gone : List Location)
  deriving DecidableEq, Repr

def Deletion.reaches : Deletion → Location → Bool
  | complete, _ => true
  | fails gone, dir => gone.contains dir

def deleteDirectory (k : Nat) (deletion : Deletion) (st : State) : Option State :=
  match st.removals[k]? with
  | some ⟨sessionId, sessionDir, .checked skipDisk⟩ =>
      some (State.setRemovalPhase k .done
        { st with
          disk := if skipDisk then st.disk else st.disk.removeBelow sessionDir deletion.reaches
          journal := st.journal ++ [.removed sessionId] })
  | _ => none

/-- One directory of the restore loop; an exception is only logged. -/
def restoreEntry (st : State) (dirName : Str) (outcome : Lookup) : State :=
  if dirName.head? ≠ some 46 ∧ dirName ≠ [] then lookupEntry dirName st outcome else st

/-- A new process after `Initialize`, before any session is restored. -/
def boot (env : Env) (config : AgentConfig) (st : State) : State where
  currentPath := env.currentPath
  config := { config with dataBasePath := env.normalize config.dataBasePath }
  agent := some 0
  agentsMade := 1
  maxConcurrent := limitOf config
  disk := st.disk
  journal := st.journal

/-- The process ends and starts again. The directories are listed in any order, each
with how its restoration ends; the default session comes last. -/
def restart (env : Env) (config : AgentConfig) (names : List (Str × Lookup))
    (defaultOutcome : Lookup) (st : State) : Option State :=
  let st := boot env config st
  if (names.map (·.1)).Perm (st.disk.namesIn (st.root ++ [lit "sessions"])) then
    let st := names.foldl (fun st name => restoreEntry st name.1 name.2) st
    some { lookupEntry kDefaultSessionId st defaultOutcome with initialized := true }
  else none

/-! ## Steps -/

inductive Event where
  | restart (env : Env) (config : AgentConfig) (names : List (Str × Lookup))
      (defaultOutcome : Lookup)
  | reload (newConfig : AgentConfig) (constructed : Bool)
  | register (id : Str)
  | invoke (sessionId : Str)
  | invokeChannel (channel chatId sessionId : Str)
  | enterGate (i : Nat)
  | testGate (i : Nat)
  | wake (i : Nat)
  | findEntry (i : Nat) (outcome : Lookup)
  | lockTurn (i : Nat)
  | addMessage (i : Nat) (now : Str) (m : Message)
  | endTurn (i : Nat) (outcome : TurnEnd)
  | releaseGate (i : Nat)
  | finish (i : Nat)
  | getOrCreate (sessionId : Str) (outcome : Lookup)
  | removeSession (sessionId : Str)
  | eraseEntry (k : Nat)
  | tryLock (k : Nat)
  | deleteDirectory (k : Nat) (deletion : Deletion)
  deriving DecidableEq, Repr

def step (st : State) : Event → Option State
  | .restart env config names defaultOutcome => restart env config names defaultOutcome st
  | .reload newConfig constructed => some (reloadAgent newConfig constructed st)
  | .register id => some (registerReservedSession id st)
  | .invoke sessionId => some (arrive (.session sessionId) st)
  | .invokeChannel channel chatId sessionId =>
      some (arrive (conversationOf channel chatId sessionId) st)
  | .enterGate i => enterGate i st
  | .testGate i => testGate i st
  | .wake i => wake i st
  | .findEntry i outcome => findEntry i outcome st
  | .lockTurn i => lockTurn i st
  | .addMessage i now m => addMessage i now m st
  | .endTurn i outcome => endTurn i outcome st
  | .releaseGate i => releaseGate i st
  | .finish i => finish i st
  | .getOrCreate sessionId outcome => some (lookupEntry sessionId st outcome)
  | .removeSession sessionId => some (checkReserved sessionId st)
  | .eraseEntry k => eraseEntry k st
  | .tryLock k => tryLock k st
  | .deleteDirectory k deletion => deleteDirectory k deletion st

end JiuwenCore.Session
