import JiuwenCore.Storage.DbStorage

/-!
# Histories over a restart

`FindOrCreateEntry` makes the storage path a directory before the engine opens it. The
JSON storage keeps its file in that directory; a database cannot be opened there, which
nobody checks, so its messages are only kept in memory.
-/

namespace JiuwenCore.Persistence

open ContextEngine
open JsonStorage (HistoryFiles addMessages acceptedAll LoadsWhole)
open Session (Location Utf8Message accepted)

/-! ## Files -/

/-- What is at a path: a directory with the files of a history, or a file, which may be a
database. -/
inductive Node (Db : Type) where
  | directory (history : HistoryFiles)
  | file (db : Option Db)

abbrev FileSystem (Db : Type) := Location → Option (Node Db)

namespace FileSystem

variable {Db : Type}

/-- Something else than a directory is at the path. -/
def blocked (fs : FileSystem Db) (path : Location) : Bool :=
  match fs path with
  | some (.file _) => true
  | _ => false

/-- `create_directories`, `none` where it throws. -/
def createDirectories (path : Location) (fs : FileSystem Db) : Option (FileSystem Db) :=
  if path.inits.any fs.blocked then none
  else some fun p => if p ∈ path.inits ∧ (fs p).isNone then some (.directory {}) else fs p

/-- The files of the history in a directory. -/
def historyAt (fs : FileSystem Db) (path : Location) : HistoryFiles :=
  match fs path with
  | some (.directory history) => history
  | _ => {}

def databaseAt (fs : FileSystem Db) (path : Location) : Option Db :=
  match fs path with
  | some (.file db) => db
  | _ => none

end FileSystem

/-- The database with the function that opens what is at a path. -/
structure SqliteFiles (Db : Type) extends DbStorage.Sqlite Db where
  openNode : Option (Node Db) → Option Db

/-- A directory is not opened. -/
structure SqliteFiles.Lawful {Db : Type} (sql : SqliteFiles Db) : Prop where
  open_directory : ∀ history, sql.openNode (some (.directory history)) = none

/-! ## A session and its storage -/

/-- `ContextConfig::StorageType`. -/
inductive StorageType where
  | memoryOnly
  | jsonFile
  | database
  deriving DecidableEq, Repr

/-- What an engine is made with. -/
structure StorageConfig where
  storageType : StorageType
  storagePath : Location
  sessionId : Str
  deriving DecidableEq, Repr

variable {Db : Type} (lib : JsonLib) (sql : SqliteFiles Db)

/-- The storage of an engine, whose constructor may have opened a database or not. -/
def storageOf (config : StorageConfig) (connected : Bool) :
    ContextEngine.Storage (FileSystem Db) where
  saveMessage := fun fs msg =>
    match config.storageType with
    | .memoryOnly => fs
    | .jsonFile =>
        Function.update fs config.storagePath
          (some (.directory
            (JsonStorage.saveMessage lib {} msg (fs.historyAt config.storagePath)).2))
    | .database =>
        let db := if connected then fs.databaseAt config.storagePath else none
        match (DbStorage.saveMessage lib sql.toSqlite config.sessionId msg db).2 with
        | some db => Function.update fs config.storagePath (some (.file (some db)))
        | none => fs
  loadHistory := fun fs =>
    match config.storageType with
    | .memoryOnly => ([], true)
    | .jsonFile => JsonStorage.loadHistory lib (fs.historyAt config.storagePath)
    | .database =>
        let db := if connected then fs.databaseAt config.storagePath else none
        DbStorage.loadHistory lib sql.toSqlite config.sessionId db

/-- The constructor of the storage: whether it has opened a database, which `sqlite3_open`
makes if nothing is there. -/
def openStorage (config : StorageConfig) (fs : FileSystem Db) : FileSystem Db × Bool :=
  match config.storageType with
  | .memoryOnly | .jsonFile => (fs, false)
  | .database =>
      match sql.openNode (fs config.storagePath) with
      | some db => (Function.update fs config.storagePath (some (.file (some db))), true)
      | none => (fs, false)

/-- A session in a running process. -/
structure OpenSession (Db : Type) where
  config : StorageConfig
  connected : Bool
  engine : Engine (FileSystem Db)

/-- The directory of the session's context. -/
def contextPath (cwd : Location) (dataBasePath sessionId : Str) : Location :=
  Session.sessionLocation cwd dataBasePath sessionId ++ [lit "context"]

/-- `FindOrCreateEntry` of a session that is not there yet, `none` where it throws. -/
def findOrCreateEntry (storageType : StorageType) (cwd : Location) (dataBasePath sessionId : Str)
    (fs : FileSystem Db) : Option (OpenSession Db) :=
  let config : StorageConfig :=
    { storageType := storageType
      storagePath := contextPath cwd dataBasePath sessionId
      sessionId := sessionId }
  (fs.createDirectories config.storagePath).map fun fs =>
    let opened := openStorage sql config fs
    { config := config
      connected := opened.2
      engine := initializeEngine (storageOf lib sql config opened.2) opened.1 }

/-- The messages are added to the session. -/
def OpenSession.add (calls : List (Str × Message)) (session : OpenSession Db) : OpenSession Db :=
  { session with
    engine := addMessages (storageOf lib sql session.config session.connected) calls
      session.engine }

/-! ## Directories -/

namespace FileSystem

variable {fs fs' : FileSystem Db} {path : Location}

theorem createDirectories_eq (h : fs.createDirectories path = some fs') :
    fs' path = some (.directory (fs.historyAt path)) ∧ path.inits.any fs'.blocked = false := by
  unfold createDirectories at h
  split at h
  · cases h
  · rename_i hfree
    rw [Bool.not_eq_true, List.any_eq_false] at hfree
    cases h
    have hself : path ∈ path.inits := (List.mem_inits ..).mpr (List.prefix_refl path)
    have hpath : fs.blocked path ≠ true := hfree path hself
    constructor
    · unfold historyAt
      unfold blocked at hpath
      simp only [hself, true_and]
      cases hnode : fs path with
      | none => rfl
      | some node =>
          cases node with
          | directory history => rfl
          | file db => simp [hnode] at hpath
    · rw [List.any_eq_false]
      intro p hp
      have hold := hfree p hp
      unfold blocked at hold ⊢
      simp only [hp, true_and]
      cases hnode : fs p with
      | none => simp
      | some node => simpa [hnode] using hold

/-- A second run finds the directories. -/
theorem createDirectories_again {history : HistoryFiles}
    (hfree : path.inits.any fs.blocked = false) (hpath : fs path = some (.directory history)) :
    ∃ fs', fs.createDirectories path = some fs' ∧ fs' path = some (.directory history) := by
  refine ⟨_, if_neg (by rw [hfree]; nofun), ?_⟩
  rw [hpath]
  exact if_neg fun hboth => by cases hboth.2

end FileSystem

/-! ## The two backends -/

variable {lib sql} {path : Location} {sessionId : Str} {fs : FileSystem Db}

theorem FileSystem.historyAt_directory {history : HistoryFiles}
    (h : fs path = some (.directory history)) : fs.historyAt path = history := by
  rw [historyAt, h]

/-- In its directory the JSON storage is the one over the files of the history. -/
theorem addMessages_json (connected : Bool) (calls : List (Str × Message))
    (buffer : List Message) {history : HistoryFiles} (h : fs path = some (.directory history)) :
    addMessages (storageOf lib sql ⟨.jsonFile, path, sessionId⟩ connected) calls ⟨buffer, fs⟩ =
      ⟨(addMessages (JsonStorage.storage lib) calls ⟨buffer, history⟩).memoryBuffer,
        Function.update fs path (some (.directory
          (addMessages (JsonStorage.storage lib) calls ⟨buffer, history⟩).storage))⟩ := by
  induction calls generalizing buffer fs history with
  | nil => exact congrArg (Engine.mk buffer) (Function.update_eq_self_iff.mpr h.symm).symm
  | cons call rest ih =>
      by_cases hvalid : isValidMessage call.2 = true
      · have hone : addMessage (storageOf lib sql ⟨.jsonFile, path, sessionId⟩ connected) call.1
            call.2 ⟨buffer, fs⟩ =
            ⟨buffer ++ [stamp call.1 call.2], Function.update fs path (some (.directory
              (JsonStorage.saveMessage lib {} (stamp call.1 call.2) history).2))⟩ := by
          rw [addMessage, if_pos hvalid]
          simp only [storageOf, FileSystem.historyAt_directory h]
        have hmodel : addMessage (JsonStorage.storage lib) call.1 call.2 ⟨buffer, history⟩ =
            ⟨buffer ++ [stamp call.1 call.2],
              (JsonStorage.saveMessage lib {} (stamp call.1 call.2) history).2⟩ := by
          rw [addMessage, if_pos hvalid]
          rfl
        have hrest := ih (buffer ++ [stamp call.1 call.2])
          (Function.update_self path (some (.directory
            (JsonStorage.saveMessage lib {} (stamp call.1 call.2) history).2)) fs)
        rw [Function.update_idem] at hrest
        rw [addMessages, addMessages, List.foldl_cons, List.foldl_cons, hone, hmodel]
        exact hrest
      · have hskip : ∀ {σ : Type} (storage : ContextEngine.Storage σ) (engine : Engine σ),
            addMessage storage call.1 call.2 engine = engine :=
          fun storage engine => if_neg hvalid
        rw [addMessages, addMessages, List.foldl_cons, List.foldl_cons, hskip, hskip]
        exact ih buffer h

/-- A database that was not opened gets nothing. -/
theorem addMessages_unconnected (calls : List (Str × Message))
    (engine : Engine (FileSystem Db)) :
    (addMessages (storageOf lib sql ⟨.database, path, sessionId⟩ false) calls engine).storage =
      engine.storage := by
  induction calls generalizing engine with
  | nil => rfl
  | cons call rest ih =>
      have hone : (addMessage (storageOf lib sql ⟨.database, path, sessionId⟩ false) call.1
          call.2 engine).storage = engine.storage := by
        unfold addMessage
        split
        · simp only [storageOf, Bool.false_eq_true, if_false, DbStorage.saveMessage_none]
        · rfl
      rw [addMessages, List.foldl_cons]
      exact (ih _).trans hone

theorem initializeEngine_json (connected : Bool) {history : HistoryFiles}
    (h : fs path = some (.directory history)) :
    initializeEngine (storageOf lib sql ⟨.jsonFile, path, sessionId⟩ connected) fs =
      ⟨(initializeEngine (JsonStorage.storage lib) history).memoryBuffer, fs⟩ := by
  rw [initializeEngine]
  simp only [storageOf, FileSystem.historyAt_directory h]
  rfl

theorem openStorage_directory (hsql : sql.Lawful) {history : HistoryFiles}
    (h : fs path = some (.directory history)) (storageType : StorageType) :
    openStorage sql ⟨storageType, path, sessionId⟩ fs = (fs, false) := by
  cases storageType with
  | memoryOnly => rfl
  | jsonFile => rfl
  | database => simp only [openStorage, h, hsql.open_directory]

/-- The entry is made in a directory, so no database is open. -/
theorem findOrCreateEntry_eq (hsql : sql.Lawful) {storageType : StorageType} {cwd : Location}
    {dataBasePath : Str} {session : OpenSession Db}
    (h : findOrCreateEntry lib sql storageType cwd dataBasePath sessionId fs = some session) :
    ∃ fs', fs.createDirectories (contextPath cwd dataBasePath sessionId) = some fs' ∧
      session =
        { config := ⟨storageType, contextPath cwd dataBasePath sessionId, sessionId⟩
          connected := false
          engine := initializeEngine
            (storageOf lib sql
              ⟨storageType, contextPath cwd dataBasePath sessionId, sessionId⟩ false) fs' } := by
  obtain ⟨fs', hdir, rfl⟩ := Option.map_eq_some_iff.mp h
  refine ⟨fs', hdir, ?_⟩
  rw [openStorage_directory hsql (FileSystem.createDirectories_eq hdir).1]

variable (lib) in
/-- The entry is made again where a directory is. -/
theorem findOrCreateEntry_again (hsql : sql.Lawful) (storageType : StorageType) {cwd : Location}
    {dataBasePath : Str} {history : HistoryFiles}
    (hfree : (contextPath cwd dataBasePath sessionId).inits.any fs.blocked = false)
    (hpath : fs (contextPath cwd dataBasePath sessionId) = some (.directory history)) :
    ∃ fs', fs' (contextPath cwd dataBasePath sessionId) = some (.directory history) ∧
      findOrCreateEntry lib sql storageType cwd dataBasePath sessionId fs = some
        { config := ⟨storageType, contextPath cwd dataBasePath sessionId, sessionId⟩
          connected := false
          engine := initializeEngine
            (storageOf lib sql
              ⟨storageType, contextPath cwd dataBasePath sessionId, sessionId⟩ false) fs' } := by
  obtain ⟨fs', hdir, hnode⟩ := FileSystem.createDirectories_again hfree hpath
  refine ⟨fs', hnode, ?_⟩
  rw [findOrCreateEntry]
  simp only [hdir, Option.map_some, openStorage_directory hsql hnode]

theorem blocked_update {history : HistoryFiles} (h : path.inits.any fs.blocked = false) :
    path.inits.any (FileSystem.blocked
      (Function.update fs path (some (.directory history)))) = false := by
  rw [List.any_eq_false] at h ⊢
  intro p hp
  have hold := h p hp
  unfold FileSystem.blocked at hold ⊢
  by_cases hself : p = path
  · rw [hself, Function.update_self]
    nofun
  · rwa [Function.update_of_ne hself]

/-! ## When a session survives -/

variable (lib) in
/-- Only tool calls were asked for, or the storage is a file and the history found in it is
whole. -/
def Persists (storageType : StorageType) (history : HistoryFiles)
    (calls : List (Str × Message)) : Prop :=
  (∀ m ∈ acceptedAll calls, m.opensCalls) ∧
      (storageType = .jsonFile → (JsonStorage.loadHistory lib history).2 = true ∨
        trimOrphanTrailingToolCalls (JsonStorage.loadHistory lib history).1 =
          (JsonStorage.loadHistory lib history).1) ∨
    storageType = .jsonFile ∧ LoadsWhole lib history

theorem acceptedAll_utf8 {calls : List (Str × Message)}
    (h : ∀ call ∈ calls, Utf8Message (stamp call.1 call.2)) :
    ∀ m ∈ acceptedAll calls, Utf8Message m := by
  intro m hm
  obtain ⟨call, hcall, hmem⟩ := List.mem_flatMap.mp hm
  unfold accepted at hmem
  split at hmem
  · rw [List.mem_singleton.mp hmem]
    exact h call hcall
  · cases hmem

/-- The JSON storage loses what the history found does. -/
theorem json_persists_iff (h : lib.Faithful) (history : HistoryFiles)
    {calls : List (Str × Message)} (hutf8 : ∀ call ∈ calls, Utf8Message (stamp call.1 call.2)) :
    (initializeEngine (JsonStorage.storage lib) (addMessages (JsonStorage.storage lib) calls
        (initializeEngine (JsonStorage.storage lib) history)).storage).memoryBuffer =
      trimOrphanTrailingToolCalls (addMessages (JsonStorage.storage lib) calls
        (initializeEngine (JsonStorage.storage lib) history)).memoryBuffer ↔
    Persists lib .jsonFile history calls := by
  have hmsgs := acceptedAll_utf8 hutf8
  have htrimmed : ∀ m ∈ trimOrphanTrailingToolCalls (acceptedAll calls), Utf8Message m :=
    fun m hm => hmsgs m ((prefix_trimOrphanTrailingToolCalls _).subset hm)
  rw [JsonStorage.initializeEngine_addMessages h, JsonStorage.addMessages_buffer,
    JsonStorage.initializeEngine_buffer,
    JsonStorage.reloaded_iff (JsonStorage.loadHistory_utf8 h history), Persists,
    JsonStorage.loadsWhole_iff, and_iff_left htrimmed]
  simp only [true_and, forall_const]

/-- With a database the messages are in memory, and nothing comes back. -/
theorem restart_database (hsql : sql.Lawful) {cwd : Location} {dataBasePath : Str}
    {session : OpenSession Db}
    (hopen : findOrCreateEntry lib sql .database cwd dataBasePath sessionId fs = some session)
    (calls : List (Str × Message)) :
    (session.add lib sql calls).engine.memoryBuffer = acceptedAll calls ∧
      ∃ again, findOrCreateEntry lib sql .database cwd dataBasePath sessionId
          (session.add lib sql calls).engine.storage = some again ∧
        again.engine.memoryBuffer = [] := by
  obtain ⟨fs₁, hdir, rfl⟩ := findOrCreateEntry_eq hsql hopen
  obtain ⟨hnode, hfree⟩ := FileSystem.createDirectories_eq hdir
  obtain ⟨fs₂, hnode₂, hagain⟩ := findOrCreateEntry_again lib hsql .database hfree hnode
  simp only [OpenSession.add, addMessages_unconnected, JsonStorage.addMessages_buffer]
  exact ⟨rfl, _, hagain, rfl⟩

/-- After a restart on the same base path a session has the messages added to it, up to
open calls at the end, exactly if they persist. -/
theorem restart_eq_trimmed_iff (h : lib.Faithful) (hsql : sql.Lawful) {storageType : StorageType}
    (htype : storageType ≠ .memoryOnly) (cwd : Location) (dataBasePath sessionId : Str)
    (fs : FileSystem Db) {session : OpenSession Db}
    (hopen : findOrCreateEntry lib sql storageType cwd dataBasePath sessionId fs = some session)
    (calls : List (Str × Message))
    (hutf8 : ∀ call ∈ calls, Utf8Message (stamp call.1 call.2)) :
    ∃ again, findOrCreateEntry lib sql storageType cwd dataBasePath sessionId
        (session.add lib sql calls).engine.storage = some again ∧
      (again.engine.memoryBuffer =
          trimOrphanTrailingToolCalls (session.add lib sql calls).engine.memoryBuffer ↔
        Persists lib storageType (fs.historyAt (contextPath cwd dataBasePath sessionId))
          calls) := by
  obtain ⟨fs₁, hdir, rfl⟩ := findOrCreateEntry_eq hsql hopen
  obtain ⟨hnode, hfree⟩ := FileSystem.createDirectories_eq hdir
  cases storageType with
  | memoryOnly => exact absurd rfl htype
  | jsonFile =>
      simp only [OpenSession.add, initializeEngine_json false hnode,
        addMessages_json false calls _ hnode]
      obtain ⟨fs₂, hnode₂, hagain⟩ := findOrCreateEntry_again lib hsql .jsonFile
        (blocked_update hfree) (Function.update_self ..)
      refine ⟨_, hagain, ?_⟩
      simp only [initializeEngine_json false hnode₂]
      exact json_persists_iff h _ hutf8
  | database =>
      obtain ⟨hbuffer, again, hagain, hempty⟩ := restart_database hsql hopen calls
      refine ⟨again, hagain, ?_⟩
      rw [hempty, hbuffer, eq_comm, trimOrphanTrailingToolCalls_eq_nil, Persists]
      simp

/-- A table in a file. -/
def fileSqlite : SqliteFiles (List DbStorage.Row) where
  toSqlite := DbStorage.listSqlite
  openNode := fun node =>
    match node with
    | none => some []
    | some (.file db) => db
    | some (.directory _) => none

theorem fileSqlite_lawful : fileSqlite.Lawful := ⟨fun _ => rfl⟩

/-- In an empty file system a session can be opened. -/
theorem findOrCreateEntry_empty (storageType : StorageType) (sessionId : Str) :
    ∃ session, findOrCreateEntry readerLib fileSqlite storageType [] [] sessionId
      (fun _ => none) = some session := by
  have hfree : ¬ (contextPath [] [] sessionId).inits.any
      (@FileSystem.blocked (List DbStorage.Row) fun _ => none) = true := by
    rw [Bool.not_eq_true, List.any_eq_false]
    exact fun _ _ => nofun
  rw [findOrCreateEntry, FileSystem.createDirectories, if_neg hfree]
  exact ⟨_, rfl⟩

/-- A session with a database has lost its messages after a restart. -/
theorem database_session_lost :
    ∃ session again : OpenSession (List DbStorage.Row),
      findOrCreateEntry readerLib fileSqlite .database [] [] (lit "s") (fun _ => none) =
          some session ∧
        findOrCreateEntry readerLib fileSqlite .database [] [] (lit "s")
            (session.add readerLib fileSqlite [(lit "2025-01-01T00:00:00Z",
              { role := Role.user, content := lit "hello" })]).engine.storage = some again ∧
          again.engine.memoryBuffer ≠ trimOrphanTrailingToolCalls
            (session.add readerLib fileSqlite [(lit "2025-01-01T00:00:00Z",
              { role := Role.user, content := lit "hello" })]).engine.memoryBuffer := by
  obtain ⟨session, hopen⟩ := findOrCreateEntry_empty .database (lit "s")
  obtain ⟨hbuffer, again, hagain, hempty⟩ := restart_database fileSqlite_lawful hopen
    [(lit "2025-01-01T00:00:00Z", { role := Role.user, content := lit "hello" })]
  refine ⟨session, again, hopen, hagain, ?_⟩
  rw [hempty, hbuffer]
  decide

theorem json_session_kept :
    ∃ session again : OpenSession (List DbStorage.Row),
      findOrCreateEntry readerLib fileSqlite .jsonFile [] [] (lit "s") (fun _ => none) =
          some session ∧
        findOrCreateEntry readerLib fileSqlite .jsonFile [] [] (lit "s")
            (session.add readerLib fileSqlite [(lit "2025-01-01T00:00:00Z",
              { role := Role.user, content := lit "hello" })]).engine.storage = some again ∧
          again.engine.memoryBuffer = trimOrphanTrailingToolCalls
            (session.add readerLib fileSqlite [(lit "2025-01-01T00:00:00Z",
              { role := Role.user, content := lit "hello" })]).engine.memoryBuffer := by
  obtain ⟨session, hopen⟩ := findOrCreateEntry_empty .jsonFile (lit "s")
  obtain ⟨again, hagain, hiff⟩ := restart_eq_trimmed_iff readerLib_faithful fileSqlite_lawful
    (by decide) [] [] (lit "s") (fun _ => none) hopen
    [(lit "2025-01-01T00:00:00Z", { role := Role.user, content := lit "hello" })] (by decide)
  exact ⟨session, again, hopen, hagain, hiff.mpr (Or.inr ⟨rfl, rfl, rfl⟩)⟩

end JiuwenCore.Persistence
