import Mathlib.Algebra.Order.Ring.Rat
import LocalSqlAgent.Eval.Fingerprint
import LocalSqlAgent.Lib.EventLog

/-! # Moving the application database

`appdb.migrate`: the tables of the application database are read from one server, copied into an empty one in
a transaction and read again on both sides. A call may raise anywhere; the source may change while the tool
runs, the target is written by it alone.

* **`MigrationWorld`**: what a run meets outside. The target is what the log of the run made of it.
* **`Store.apply`**: what an event does to the target: an `ALTER TABLE` commits what was written before it.
* **`runMigration`**: one run, a refusal as a result and every other exception raised. -/

namespace LocalSqlAgent

/-! ## The tables -/

/-- A migrated table. -/
structure MigratedTable where
  /-- Its name. -/
  name : String
  /-- Its columns. -/
  columns : List String
  /-- `AUTOINCREMENT_PK_COLUMNS.get(name)`. -/
  autoincrement : Option String := none
  deriving DecidableEq

/-- **`TABLES_IN_MIGRATION_ORDER`.** -/
def tablesInMigrationOrder : List MigratedTable := [
  { name := "admin_api_keys"
    columns := ["key_sha256", "principal_id", "name", "denied_columns_json", "source", "created_at", "updated_at",
      "disabled_at", "revoked_at"] },
  { name := "admin_principal_roles"
    columns := ["principal_id", "capability", "granted_at", "granted_by"] },
  { name := "config_bundle_versions"
    columns := ["version_id", "status", "content_json", "content_hash", "based_on_version", "restored_from_version",
      "restored_file", "created_at", "created_by", "created_by_capability", "reviewed_by", "reviewed_at",
      "review_note", "diff_json", "dry_run_json"]
    autoincrement := some "version_id" },
  { name := "turn_feedback"
    columns := ["feedback_id", "session_id", "turn_id", "request_id", "reporter_principal_id", "category", "note",
      "config_version_id", "created_at", "status", "resolution_outcome", "resolution_note",
      "resolution_config_version_id", "resolution_golden_case_id", "resolved_by", "resolved_at"]
    autoincrement := some "feedback_id" },
  { name := "access_requests"
    columns := ["request_id", "session_id", "turn_id", "requester_principal_id", "column_name", "created_at", "status",
      "resolution_note", "resolved_by", "resolved_at"]
    autoincrement := some "request_id" },
  { name := "turn_confirmations"
    columns := ["confirmation_id", "session_id", "turn_id", "principal_id", "request_id", "created_at"]
    autoincrement := some "confirmation_id" }]

/-- A row of a table, its cells in the order of the columns. -/
abbrev TableRow (φ : Type) := List (ScalarCell φ)

variable {φ η : Type}

/-- An integer cell. -/
def ScalarCell.int? : ScalarCell φ → Option ℤ
  | .int n => some n
  | _ => none

/-- The cell of a row under a column. -/
def cellUnder (t : MigratedTable) (column : String) (row : TableRow φ) : ScalarCell φ :=
  row.getD (t.columns.idxOf column) .null

/-- The ids of some rows under a key column. -/
def idsOf (t : MigratedTable) (column : String) (rows : List (TableRow φ)) : List ℤ :=
  rows.filterMap fun row => (cellUnder t column row).int?

/-! ## The target -/

/-- The servers that are known to `_reset_autoincrement`, by the dialect's name. -/
inductive AppDialect where
  | postgresql
  | mssql
  | mysql
  | sqlite
  | other
  deriving DecidableEq

/-- What `_reset_autoincrement` executes. -/
inductive ReseedStatement where
  /-- `SELECT setval(pg_get_serial_sequence(…), v, true)`. -/
  | setval (v : ℤ)
  /-- `DBCC CHECKIDENT (…, RESEED, v)`. -/
  | checkident (v : ℤ)
  /-- `ALTER TABLE … AUTO_INCREMENT = v`. -/
  | autoIncrement (v : ℤ)
  /-- `INSERT OR REPLACE INTO sqlite_sequence(name, seq) VALUES (…, v)`. -/
  | sequence (v : ℤ)
  deriving DecidableEq

/-- The id a table counts as the last one after the statement. -/
def ReseedStatement.last : ReseedStatement → ℤ
  | .setval v | .checkident v | .sequence v => v
  | .autoIncrement v => v - 1

/-- The statement for the greatest id copied; none for a server without counters or unknown. -/
def reseedStatement (dialect : AppDialect) (hasSequence : Bool) (maxId : ℤ) : Option ReseedStatement :=
  match dialect with
  | .postgresql => some (.setval maxId)
  | .mssql => some (.checkident maxId)
  | .mysql => some (.autoIncrement (maxId + 1))
  | .sqlite => if hasSequence then some (.sequence maxId) else none
  | .other => none

/-- A table of a database. -/
structure StoredTable (φ : Type) where
  /-- Its rows. -/
  rows : List (TableRow φ) := []
  /-- The id its counter counts as the last one. -/
  last : ℤ := 0

/-- A database, by the names of its tables. -/
abbrev TableStore (φ : Type) := String → Option (StoredTable φ)

/-- The rows of a table; a table that does not exist has none. -/
def TableStore.rowsOf (db : TableStore φ) (name : String) : List (TableRow φ) := ((db name).map (·.rows)).getD []

/-- A table changed. -/
def TableStore.change (db : TableStore φ) (name : String) (f : StoredTable φ → StoredTable φ) : TableStore φ :=
  fun n => if n = name then (db n).map f else db n

/-- The id the next row of a table gets: MySQL and SQLite never give one that is not above the rows'. -/
def nextId (dialect : AppDialect) (ids : List ℤ) (last : ℤ) : ℤ :=
  match dialect with
  | .mysql | .sqlite => max last (ids.foldr max 0) + 1
  | _ => last + 1

/-- What happens in a run. -/
inductive MigrationEvent (φ : Type) where
  /-- A table of the source was read; none: there is no such table. -/
  | sourceRead (table : String) (rows : Option (List (TableRow φ)))
  /-- A table of the target was read. -/
  | targetRead (table : String)
  /-- A call raised. -/
  | failed
  /-- Tables were created, those that there were not. -/
  | created (names : List String)
  /-- A transaction on the target. -/
  | began
  /-- Rows inserted. -/
  | inserted (table : String) (rows : List (TableRow φ))
  /-- An implicit commit. -/
  | flushed
  /-- A counter set. -/
  | reseeded (table : String) (statement : ReseedStatement)
  /-- The transaction committed. -/
  | committed
  /-- The transaction rolled back. -/
  | rolledBack

/-- **The target**: what is durable, and what the open transaction sees. -/
structure Store (φ : Type) where
  /-- What is durable. -/
  durable : TableStore φ
  /-- What the transaction sees. -/
  pending : Option (TableStore φ) := none

namespace Store

/-- What a reader in the run sees. -/
def current (s : Store φ) : TableStore φ := s.pending.getD s.durable

/-- **What an event does to the target.** -/
def apply (s : Store φ) : MigrationEvent φ → Store φ
  | .created names =>
    { s with durable := fun n => if n ∈ names ∧ s.durable n = none then some {} else s.durable n }
  | .began => { s with pending := some s.durable }
  | .inserted table rows =>
    { s with pending := s.pending.map (·.change table fun t => { t with rows := t.rows ++ rows }) }
  | .flushed => { s with durable := s.current }
  | .reseeded table statement =>
    { s with pending := s.pending.map (·.change table fun t => { t with last := statement.last }) }
  | .committed => { durable := s.current }
  | .rolledBack => { s with pending := none }
  | .sourceRead _ _ | .targetRead _ | .failed => s

/-- The target after a log, newest event first. -/
def ofLog (init : TableStore φ) (log : List (MigrationEvent φ)) : Store φ := log.foldr (fun e s => s.apply e) ⟨init, none⟩

end Store

/-! ## What a run meets -/

/-- Why a run stops. -/
inductive MigrationStop where
  /-- `MigrationRefusedError`. -/
  | refused (message : String)
  /-- Any other exception. -/
  | raised (message : String)
  deriving DecidableEq

/-- An `_canonical_endpoint`. -/
inductive Endpoint where
  /-- A database in memory, which is the same as no other: its endpoint has a `uuid4`. -/
  | memory
  /-- A file, by its resolved path. -/
  | file (path : String)
  /-- A database of a server. -/
  | server (backend host : String) (port : Option ℕ) (database : String)
  deriving DecidableEq

/-- `_canonical_endpoint(a) == _canonical_endpoint(b)`. -/
def Endpoint.sameAs (a b : Endpoint) : Bool := a ≠ .memory ∧ a = b

/-- **What a run meets outside.** -/
structure MigrationWorld (φ η : Type) where
  /-- Python's floats. -/
  floats : PyFloats φ
  /-- `_rows_as_dataframe`, which is pandas: a frame with the table's columns. -/
  frame : MigratedTable → List (TableRow φ) → NamedFrame φ
  /-- It has the table's columns. -/
  frame_columns : ∀ t rows, (frame t rows).columns = t.columns
  /-- The SHA-256 of a canonical structure. -/
  digest : CanonicalRepr → η
  /-- The SHA-256 of the hashes of the tables. -/
  digestAll : List (String × η) → η
  /-- The target's server. -/
  dialect : AppDialect
  /-- The target has a table `sqlite_sequence`. -/
  hasSequence : Bool
  /-- What a read of a table of the source returns or raises. -/
  source : List (MigrationEvent φ) → String → Except String (Option (List (TableRow φ)))
  /-- What a call on the target raises. -/
  targetRaises : List (MigrationEvent φ) → Option String
  /-- How many tables there are when `create_all` raises. -/
  createdBefore : List (MigrationEvent φ) → ℕ
  /-- What the caller's `on_export` raises. -/
  onExport : List (MigrationEvent φ) → Option String
  /-- A commit that raises has been done. -/
  commitDone : List (MigrationEvent φ) → Bool
  /-- `current_schema_version`. -/
  schemaVersion : List (MigrationEvent φ) → String
  /-- `datetime.now(timezone.utc)` in seconds. -/
  now : List (MigrationEvent φ) → ℚ
  /-- `datetime.fromisoformat` of a cell that is not empty, a naive time taken as UTC. -/
  readTime : ScalarCell φ → Option ℚ
  /-- `migration_quiet_window_seconds`. -/
  quietWindow : ℚ
  /-- `{x:.1f}` and `{x:.0f}`. -/
  fixed : ℕ → ℚ → String
  /-- `redact_url` of the two addresses. -/
  sourceShown : String
  /-- The target's. -/
  targetShown : String
  /-- `repr` of a string. -/
  repr : String → String

/-- `DEFAULT_FLOAT_PRECISION`. -/
def defaultFloatPrecision : ℤ := 6

/-- **`TableSnapshot`**. -/
structure TableSnapshot (φ η : Type) where
  /-- The table. -/
  table : MigratedTable
  /-- Its rows. -/
  rows : List (TableRow φ)
  /-- Their number. -/
  rowCount : ℕ
  /-- `fingerprint_dataframe` of them. -/
  contentHash : η

/-- **`MigrationExport`**, without the time of the export. -/
structure MigrationExport (φ η : Type) where
  /-- The revision it was made at. -/
  schemaVersion : String
  /-- The tables, in their order. -/
  tables : List (TableSnapshot φ η)

/-- `TableVerification`. -/
structure TableVerification (η : Type) where
  /-- The table. -/
  table : String
  /-- The rows of the source. -/
  sourceRowCount : ℕ
  /-- The rows of the target. -/
  targetRowCount : ℕ
  /-- The fingerprint of the source. -/
  sourceHash : η
  /-- The fingerprint of the target. -/
  targetHash : η

/-- `TableVerification.ok`. -/
def TableVerification.ok [DecidableEq η] (v : TableVerification η) : Bool :=
  v.sourceRowCount = v.targetRowCount ∧ v.sourceHash = v.targetHash

/-- **`MigrationResult`**. -/
structure MigrationResult (η : Type) where
  dryRun : Bool
  ok : Bool
  message : String
  schemaVersion : String
  sourceHashBefore : η
  sourceHashAfter : η
  exportRowCounts : List (String × ℕ)
  verification : Option (List (TableVerification η))

/-- A step of a run. -/
abbrev MigrationM (φ : Type) := LogM (MigrationEvent φ) MigrationStop

namespace MigrationWorld

variable (W : MigrationWorld φ η) (init : TableStore φ)

/-! ## Reading -/

/-- A call on the target that raises or goes on. -/
def targetCall : MigrationM φ Unit := do
  match ← LogM.observe W.targetRaises with
  | some message =>
    LogM.record .failed
    throw (.raised message)
  | none => pure ()

/-- The rows of a table of the source. -/
def readSource (t : MigratedTable) : MigrationM φ (List (TableRow φ)) := do
  match ← LogM.observe fun log => W.source log t.name with
  | .error message =>
    LogM.record .failed
    throw (.raised message)
  | .ok rows =>
    LogM.record (.sourceRead t.name rows)
    return rows.getD []

/-- The rows of a table of the target, as the run's connection sees them. -/
def readTarget (t : MigratedTable) : MigrationM φ (List (TableRow φ)) := do
  W.targetCall
  LogM.record (.targetRead t.name)
  LogM.observe fun log => (Store.ofLog init log).current.rowsOf t.name

/-- `_table_snapshot` and `_empty_snapshot`. -/
def tableSnapshot (t : MigratedTable) (rows : List (TableRow φ)) : TableSnapshot φ η :=
  ⟨t, rows, rows.length, W.digest ((W.frame t rows).canonicalRepr W.floats defaultFloatPrecision)⟩

/-- `_snapshot_all_tables` over a read of one table. -/
def snapshotAllTables (read : MigratedTable → MigrationM φ (List (TableRow φ))) :
    List MigratedTable → MigrationM φ (List (TableSnapshot φ η))
  | [] => return []
  | t :: rest => do
    let rows ← read t
    let later ← snapshotAllTables read rest
    return W.tableSnapshot t rows :: later

/-- `hash_database` of the source. -/
def hashDatabase : MigrationM φ η := do
  let tables ← W.snapshotAllTables W.readSource tablesInMigrationOrder
  return W.digestAll (tables.map fun s => (s.table.name, s.contentHash))

/-! ## Refusals -/

/-- The cells of a row under columns that end in `_at`. -/
def timestampCells (s : TableSnapshot φ η) : List (ScalarCell φ) :=
  s.rows.flatMap fun row => (s.table.columns.filter fun c => ['_', 'a', 't'].isSuffixOf c.toList).map fun c => cellUnder s.table c row

/-- `_max_activity_timestamp`. -/
def maxActivityTimestamp (tables : List (TableSnapshot φ η)) : Option ℚ :=
  ((tables.flatMap timestampCells).filterMap W.readTime).max?

/-- `check_quiescent`. -/
def checkQuiescent (tables : List (TableSnapshot φ η)) : MigrationM φ Unit := do
  match W.maxActivityTimestamp tables with
  | none => pure ()
  | some latest =>
    let age ← LogM.observe fun log => W.now log - latest
    if age < W.quietWindow then
      throw (.refused ("the source application database has write activity from " ++ W.fixed 1 (max age 0) ++
        "s ago, inside the " ++ W.fixed 0 W.quietWindow ++ "s quiet window this tool requires -- refusing to " ++
        "migrate. This tool requires the application to be stopped or in maintenance mode: a write that lands in " ++
        "the source after this tool has read past it is lost with no error at all. Maintenance mode exists " ++
        "(api/maintenance.py) but its flag lives in the server's own process memory, so this tool -- a separate " ++
        "process -- cannot observe it; turning maintenance on does not lift this refusal. Stop the application " ++
        "(or wait for it to go quiet) and re-run."))

/-- **`export_database`**. -/
def exportDatabase : MigrationM φ (MigrationExport φ η) := do
  let tables ← W.snapshotAllTables W.readSource tablesInMigrationOrder
  let version ← LogM.observe W.schemaVersion
  W.checkQuiescent tables
  return ⟨version, tables⟩

/-- `check_schema_version`. -/
def checkSchemaVersion (version : String) : MigrationM φ Unit := do
  let current ← LogM.observe W.schemaVersion
  if version ≠ current then
    throw (.refused ("schema-version mismatch: this export was produced at schema revision " ++ W.repr version ++
      ", but this installation's migrations are at " ++ W.repr current ++ ". Run this installation's migrations " ++
      "against the target (`alembic upgrade head`) -- or re-export from a build whose revision matches -- before " ++
      "importing. Silently loading a different shape is how a subtly broken installation gets created."))

/-- `check_not_same_database`. -/
def checkNotSameDatabase (source target : Endpoint) : MigrationM φ Unit :=
  if source.sameAs target then
    throw (.refused ("source and target resolve to the same database -- nothing to migrate. source: " ++
      W.repr W.sourceShown ++ "; target: " ++ W.repr W.targetShown ++ "."))
  else pure ()

/-- `check_target_is_empty`, table by table. -/
def checkTargetIsEmpty : List MigratedTable → MigrationM φ Unit
  | [] => pure ()
  | t :: rest => do
    let rows ← W.readTarget init t
    if rows ≠ [] then
      throw (.refused ("target table " ++ W.repr t.name ++ " already has " ++ toString rows.length ++
        " row(s) -- this tool only migrates into an empty target. Point --to at a fresh database, or clear it first."))
    else checkTargetIsEmpty rest

/-! ## Copying -/

/-- `metadata.create_all(engine, checkfirst=True)`. -/
def createAll : MigrationM φ Unit := do
  let names := tablesInMigrationOrder.map (·.name)
  match ← LogM.observe fun log => (W.targetRaises log, W.createdBefore log) with
  | (some message, n) =>
    LogM.record (.created (names.take n))
    throw (.raised message)
  | (none, _) => LogM.record (.created names)

/-- `_reset_autoincrement`. MySQL commits before and after an `ALTER TABLE`. -/
def resetAutoincrement (t : MigratedTable) (column : String) : MigrationM φ Unit := do
  let rows ← W.readTarget init t
  match (idsOf t column rows).max? with
  | none => pure ()
  | some maxId =>
    match reseedStatement W.dialect W.hasSequence maxId with
    | none => pure ()
    | some statement =>
      if W.dialect = .mysql then LogM.record .flushed
      W.targetCall
      LogM.record (.reseeded t.name statement)
      if W.dialect = .mysql then LogM.record .flushed

/-- One turn of the loop of `import_export`. -/
def copyTable (s : TableSnapshot φ η) : MigrationM φ Unit :=
  if s.rows = [] then pure ()
  else do
    W.targetCall
    LogM.record (.inserted s.table.name s.rows)
    match s.table.autoincrement with
    | none => pure ()
    | some column => W.resetAutoincrement init s.table column

/-- The loop of `import_export`. -/
def copyTables : List (TableSnapshot φ η) → MigrationM φ Unit
  | [] => pure ()
  | s :: rest => do
    W.copyTable init s
    copyTables rest

/-- `with engine.begin()`: the end of the block is a commit, an exception in it a rollback. -/
def transaction (body : MigrationM φ Unit) : MigrationM φ Unit := do
  W.targetCall
  LogM.record .began
  match ← LogM.attempt body with
  | .error stop =>
    LogM.record .rolledBack
    throw stop
  | .ok () =>
    match ← LogM.observe fun log => (W.targetRaises log, W.commitDone log) with
    | (none, _) => LogM.record .committed
    | (some message, done) =>
      LogM.record (if done then .committed else .rolledBack)
      throw (.raised message)

/-- **`import_export`**. -/
def importExport (e : MigrationExport φ η) : MigrationM φ Unit := do
  W.checkSchemaVersion e.schemaVersion
  W.createAll
  W.checkTargetIsEmpty init tablesInMigrationOrder
  W.transaction (W.copyTables init e.tables)

/-- `preview_migration`. -/
def previewMigration (e : MigrationExport φ η) : MigrationM φ (List (String × ℕ)) := do
  W.checkSchemaVersion e.schemaVersion
  W.checkTargetIsEmpty init tablesInMigrationOrder
  return e.tables.map fun s => (s.table.name, s.rowCount)

/-! ## A run -/

/-- `verify_migration`. -/
def verifyMigration : MigrationM φ (List (TableVerification η)) := do
  let source ← W.snapshotAllTables W.readSource tablesInMigrationOrder
  let target ← W.snapshotAllTables (W.readTarget init) tablesInMigrationOrder
  return source.zipWith (fun s t => ⟨s.table.name, s.rowCount, t.rowCount, s.contentHash, t.contentHash⟩) target

/-- What a run reports of its try block: the message, the counts and the verification. -/
abbrev MigrationOutcome (η : Type) := Bool × String × List (String × ℕ) × Option (List (TableVerification η))

/-- What follows the export. -/
def migrate [DecidableEq η] (dryRun : Bool) (e : MigrationExport φ η) : MigrationM φ (MigrationOutcome η) :=
  if dryRun then do
    let counts ← W.previewMigration init e
    return (true, "dry run: no rows written to the target", counts, none)
  else do
    match ← LogM.observe W.onExport with
    | some message => throw (.raised message)
    | none => pure ()
    W.importExport init e
    let verification ← W.verifyMigration init
    let counts := e.tables.map fun s => (s.table.name, s.rowCount)
    if verification.all (·.ok) then
      return (true, "migration verified: every table's row count and content hash match on both sides", counts,
        some verification)
    else
      return (false, "verification FAILED after copy -- the target must not be used; see the per-table report", counts,
        some verification)

/-- **`run_migration`**: the source is hashed before and after, whatever happens. -/
def runMigration [DecidableEq η] (source target : Endpoint) (dryRun : Bool) : MigrationM φ (MigrationResult η) := do
  let before ← W.hashDatabase
  let exported ← LogM.attempt do
    W.checkNotSameDatabase source target
    W.exportDatabase
  let version := match exported with
    | .ok e => e.schemaVersion
    | .error _ => ""
  let outcome ← match exported with
    | .ok e => LogM.attempt (W.migrate init dryRun e)
    | .error stop => pure (.error stop)
  let after ← W.hashDatabase
  match outcome with
  | .ok (ok, message, counts, verification) => return ⟨dryRun, ok, message, version, before, after, counts, verification⟩
  | .error (.refused message) => return ⟨dryRun, false, message, version, before, after, [], none⟩
  | .error stop => throw stop

end MigrationWorld

end LocalSqlAgent
