import LocalSqlAgent.SchemaData.Drift

/-! # The drift report over several data sources

`check_schema_drift` without an injected engine: every configured source is scanned for the tables that
live in it, and the findings of all sources make one report. Every read may raise, and where an exception
goes depends on the read.

* **`LiveSource`**, **`Outage`**: what the reads of a source answer, and which of them raise.
* **`scanEveryDatasource`**: a source whose engine cannot be built is passed over when there are several;
  an exception of the inspection itself is caught nowhere.
* **`checkDatasources`**: the report, and the types stored for the next run.
* **`checkDatasources_single`**: with one source that can be reached it is the report of `Drift`. -/

namespace LocalSqlAgent

/-! ## Reads -/

/-- A data source: what its reads answer when they do not raise. -/
structure LiveSource where
  /-- `inspector.get_table_names`. -/
  tableNames : Option String → List String
  /-- `inspector.get_columns`: names with their types as text. -/
  columns : Option String → String → List (String × String)
  /-- `list_tables`: tables and views by location. -/
  catalogue : List (String × String)
  /-- `default_schema`. -/
  defaultSchema : String

/-- **An outage**: the reads that raise. -/
structure Outage where
  /-- `get_engine`, for the scan of a source. -/
  engine : String → Bool
  /-- `sa_inspect`, which connects. -/
  connect : String → Bool
  /-- Listing a schema of a source. -/
  tableNames : String → Option String → Bool
  /-- Reading a table of a schema of a source. -/
  columns : String → Option String → String → Bool
  /-- The catalogue of a source, asked for a misplaced table: its engine, its query or its default schema. -/
  catalogue : String → Bool

/-- No read raises. -/
def Outage.clear : Outage :=
  ⟨fun _ => false, fun _ => false, fun _ _ => false, fun _ _ _ => false, fun _ => false⟩

/-- The inspector of a source during an outage. -/
def LiveSource.inspector (source : LiveSource) (o : Outage) (name : String) : Inspector where
  tableNames schema := if o.tableNames name schema then none else some (source.tableNames schema)
  columns schema table := if o.columns name schema table then none else some (source.columns schema table)

theorem inspector_tableNames (source : LiveSource) (o : Outage) (name : String) (schema : Option String) :
    (source.inspector o name).tableNames schema =
      if o.tableNames name schema then none else some (source.tableNames schema) := rfl

theorem inspector_columns (source : LiveSource) (o : Outage) (name : String) (schema : Option String)
    (table : String) : (source.inspector o name).columns schema table =
      if o.columns name schema table then none else some (source.columns schema table) := rfl

/-- An exception that leaves `check_schema_drift`. -/
inductive DriftError where
  | engine (source : String)
  | connect (source : String)
  deriving DecidableEq

/-- The tables of the file a predicate keeps. -/
def SchemaConfig.only (S : SchemaConfig) (keep : String → Bool) : SchemaConfig where
  tables := ⟨S.tables.entries.filter fun e => keep e.1, S.tables.nodupKeys.sublist List.filter_sublist⟩
  relationships := S.relationships

/-! ## Scans -/

/-- `_SourceScan`; the verifiable tables with their columns. -/
structure SourceScan where
  source : Option String
  tables : List String
  schemasScanned : List String
  live : LiveTables
  verifiable : List (String × TableDefinition)

section Scans

variable (N : NameReader) (S : SchemaConfig) (D : Datasources) (W : String → LiveSource) (o : Outage)

/-- `_scan` of one source's tables. -/
def scanOf (part : SchemaConfig) (name : String) (label : Option String) : SourceScan where
  source := label
  tables := part.tableColumns.map (·.1)
  schemasScanned := (part.schemasScanned N).map fun schema => label.elim schema (· ++ "/" ++ schema)
  live := scanLive N part ((W name).inspector o name)
  verifiable := verifiableTables N part

/-- `_scan`, whose inspection may raise. -/
def scanSource (part : SchemaConfig) (name : String) (label : Option String) : Except DriftError SourceScan :=
  if o.connect name then .error (.connect name) else .ok (scanOf N W o part name label)

/-- The tables that live in a source. -/
def tablesIn (name : String) : SchemaConfig := S.only fun t => decide (name ∈ D.sourcesOf t)

/-- The loop over several sources. -/
def scanNames : List String → Except DriftError (List SourceScan)
  | [] => .ok []
  | name :: rest =>
    if (tablesIn S D name).tableColumns.isEmpty then scanNames rest
    else if o.engine name then scanNames rest
    else do
      let scan ← scanSource N W o (tablesIn S D name) name (some name)
      let scans ← scanNames rest
      return scan :: scans

/-- `_scan_every_datasource`. -/
def scanEveryDatasource : Except DriftError (List SourceScan) :=
  match D.names with
  | [name] =>
    -- with one source nothing catches what `get_engine` raises
    if o.engine name then .error (.engine name) else (scanSource N W o S name none).map fun scan => [scan]
  | names => scanNames N S D W o names

end Scans

/-! ## Findings -/

/-- An entry of `misplaced_tables`. -/
structure MisplacedTable where
  table : String
  assigned : List String
  missingFrom : List String
  foundIn : List String
  /-- One name, or the list of several. -/
  suggestedDatasource : String ⊕ List String
  hint : String
  deriving DecidableEq

/-- `SchemaDriftReport` with the finding about sources. -/
structure DatasourceDriftReport extends SchemaDriftReport where
  misplacedTables : List MisplacedTable

section Findings

variable (N : NameReader) (S : SchemaConfig) (D : Datasources)

/-- `shared_tables`: reported per source. -/
def sharedTables : List String := (S.tableColumns.map (·.1)).filter fun t => 1 < (D.sourcesOf t).length

/-- The tail of a report id. -/
def idSuffix (source key : Option String) : String :=
  match source, key with
  | some s, some k => if k ∈ sharedTables S D ∧ s ≠ "" then " [" ++ s ++ "]" else ""
  | _, _ => ""

/-- `_column_id`, with the tail a shared table's columns get. -/
def reportId (source : Option String) (table column : String) (key : Option String) : String :=
  columnId table column ++ idSuffix S D source key

/-- `schema_col_ids`. -/
def schemaIds (scans : List SourceScan) : List String :=
  (scans.flatMap fun scan => scan.verifiable.flatMap fun e =>
    e.2.columnNames.map fun c => reportId S D scan.source e.1 c (some e.1)).dedup

/-- The columns one scan shows, with their types; a copy of a table of other sources is passed over. -/
def shownPairs (scan : SourceScan) : List (String × String) :=
  scan.live.entries.flatMap fun e =>
    let key := (keyBySchemaAndBare N S).lookup e.1
    if key.any fun k => decide (k ∉ scan.tables) then []
    else e.2.entries.map fun c => (reportId S D scan.source (tableId N S e.1) c.1 key, c.2)

/-- `live_col_ids`, with the types. -/
def shownIds (scans : List SourceScan) : OrderedDict String String :=
  .ofPairs (scans.flatMap (shownPairs N S D))

/-- `verified`. -/
def isVerified (scans : List SourceScan) (source : Option String) (table : String) : Bool :=
  scans.any fun scan => decide (scan.source = source) && scan.verifiable.any fun e => decide (e.1 = table)

/-- `unverifiable_tables`: expected of a source and not verified there. -/
def unverifiable (scans : List SourceScan) : List String :=
  sortedStrings ((S.tableColumns.map (·.1)).filter fun t =>
    if 1 < D.names.length then (D.sourcesOf t).any fun s => !isVerified scans (some s) t
    else !isVerified scans none t)

/-- `type_changed`. -/
def typeChanges (schemaIds : List String) (live previous : OrderedDict String String) : List TypeChanged :=
  (sortedStrings (schemaIds.filter (· ∈ live.keys))).filterMap fun id =>
    match previous.lookup id, live.lookup id with
    | some old, some new => if old ≠ new then some ⟨id, old, new⟩ else none
    | _, _ => none

/-- `by_source`: of two scans of one source the later one. -/
def scanIn (scans : List SourceScan) (source : String) : Option SourceScan :=
  scans.reverse.find? fun scan => decide (scan.source = some source)

/-- What a scan shows of a table: whether some column of the file is there; `none` when it was not
verified. -/
def showsSome (scans : List SourceScan) (key : String) (table : TableDefinition) (source : String) :
    Option Bool :=
  (scanIn scans source).bind fun scan =>
    if scan.verifiable.any fun e => decide (e.1 = key) then
      let live := (scan.live.lookup (S.tableSchema N key, N.bareTableName key)).getD ∅
      some (table.columnNames.any fun c => decide (c ∈ live.keys))
    else none

/-- `_catalogue`: a source that cannot be read has no table. -/
def catalogueHas (W : String → LiveSource) (o : Outage) (key source : String) : Bool :=
  !o.catalogue source &&
    (W source).catalogue.contains (N.tableLocation key (S.tableSchema N key) (W source).defaultSchema)

/-- The hint about one table. -/
def misplacedHint (W : String → LiveSource) (o : Outage) (scans : List SourceScan) (key : String)
    (table : TableDefinition) : Option MisplacedTable :=
  let assigned := D.sourcesOf key
  let absent := assigned.filter fun s => showsSome N S scans key table s = some false
  let present := assigned.filter fun s => showsSome N S scans key table s = some true
  if absent = [] then none
  else
    let missingFrom := D.names.filter (· ∈ absent)
    let found := D.names.filter fun s =>
      decide (s ∈ present) || (decide (s ∉ assigned) && catalogueHas N S W o key s)
    let value := if found.length = 1 then found.headD "" else "[" ++ joinStrings ", " found ++ "]"
    if found = [] then none
    else some
      { table := key
        assigned := assigned
        missingFrom := missingFrom
        foundIn := found
        suggestedDatasource := if found.length = 1 then .inl (found.headD "") else .inr found
        hint := key ++ ": not in " ++ joinStrings ", " missingFrom ++ ", found in " ++ joinStrings ", " found ++
          " — set datasource: " ++ value }

/-- `_find_misplaced_tables`. -/
def findMisplacedTables (W : String → LiveSource) (o : Outage) (scans : List SourceScan) :
    List MisplacedTable :=
  (sortedStrings (S.tableColumns.map (·.1))).filterMap fun key =>
    (S.tables.lookup key).bind (misplacedHint N S D W o scans key)

/-- The report on the scans. -/
def reportOf (W : String → LiveSource) (o : Outage) (previous : OrderedDict String String)
    (scans : List SourceScan) : DatasourceDriftReport where
  schemasScanned := sortedStrings (scans.flatMap (·.schemasScanned))
  warehouseOnly := sortedStrings ((shownIds N S D scans).keys.filter (· ∉ schemaIds S D scans))
  schemaOnly := sortedStrings ((schemaIds S D scans).filter (· ∉ (shownIds N S D scans).keys))
  typeChanged := typeChanges (schemaIds S D scans) (shownIds N S D scans) previous
  unverifiableTables := unverifiable S D scans
  baselineAvailable := decide (previous.keys ≠ [])
  misplacedTables := if 1 < D.names.length then findMisplacedTables N S D W o scans else []

/-- **`check_schema_drift`** on the configured sources, with the types the last run left; the report and the
types this one leaves. -/
def checkDatasources (W : String → LiveSource) (o : Outage) (persistBaseline : Bool)
    (baseline : Option (OrderedDict String String)) :
    Except DriftError (DatasourceDriftReport × Option (OrderedDict String String)) := do
  let scans ← scanEveryDatasource N S D W o
  return (reportOf N S D W o (baseline.getD ∅) scans,
    if persistBaseline then some (shownIds N S D scans) else baseline)

end Findings

/-! ## One source -/

section Single

variable {N : NameReader} {S : SchemaConfig} {D : Datasources} {W : String → LiveSource} {o : Outage}

/-- A live table's key is a queryable table of the file. -/
theorem mem_of_keyBySchemaAndBare {live : String × String} {key : String}
    (h : (keyBySchemaAndBare N S).lookup live = some key) : key ∈ S.tableColumns.map (·.1) := by
  obtain ⟨p, hp, heq⟩ := OrderedDict.exists_of_mem_ofPairs (AList.mem_lookup_iff.mp h)
  obtain ⟨e, he, rfl⟩ := List.mem_map.mp hp
  cases heq
  exact List.mem_map_of_mem he

theorem idSuffix_none (key : Option String) : idSuffix S D none key = "" := rfl

theorem shownIds_single (name : String) :
    shownIds N S D [scanOf N W o S name none] = liveColIds N S ((W name).inspector o name) := by
  unfold shownIds liveColIds
  rw [List.flatMap_singleton]
  refine congrArg OrderedDict.ofPairs (List.flatMap_congr fun e _ => ?_)
  have hkey : (((keyBySchemaAndBare N S).lookup e.1).any
      fun k => decide (k ∉ (scanOf N W o S name none).tables)) = false := by
    cases hlookup : (keyBySchemaAndBare N S).lookup e.1 with
    | none => rfl
    | some key =>
      rw [Option.any_some, decide_eq_false_iff_not, not_not]
      exact mem_of_keyBySchemaAndBare hlookup
  dsimp only
  rw [hkey, if_neg Bool.false_ne_true]
  refine List.map_congr_left fun c _ => ?_
  rw [reportId, scanOf, idSuffix_none, String.append_empty]

theorem schemaIds_single (name : String) : schemaIds S D [scanOf N W o S name none] = schemaColIds N S := by
  unfold schemaIds schemaColIds
  rw [List.flatMap_singleton]
  refine congrArg List.dedup (List.flatMap_congr fun e _ => List.map_congr_left fun c _ => ?_)
  rw [reportId, scanOf, idSuffix_none, String.append_empty]

theorem unverifiable_single {name : String} (hname : D.names = [name]) :
    unverifiable S D [scanOf N W o S name none] = [] := by
  have hall : ∀ t ∈ S.tableColumns.map (·.1), isVerified [scanOf N W o S name none] none t = true := by
    intro t ht
    obtain ⟨e, he, rfl⟩ := List.mem_map.mp ht
    have hver : e ∈ (scanOf N W o S name none).verifiable := by
      rw [scanOf, verifiableTables_eq]
      exact he
    refine List.any_eq_true.mpr ⟨_, List.mem_singleton_self _, ?_⟩
    rw [Bool.and_eq_true, decide_eq_true_eq]
    exact ⟨rfl, List.any_eq_true.mpr ⟨e, hver, decide_eq_true rfl⟩⟩
  unfold unverifiable
  rw [hname, List.filter_eq_nil_iff.mpr]
  · rfl
  · intro t ht
    rw [if_neg (by simp), hall t ht]
    exact Bool.false_ne_true

/-- **One source that can be reached**: the report on its engine, and no hint. -/
theorem checkDatasources_single {name : String} (hname : D.names = [name]) (hengine : o.engine name = false)
    (hconnect : o.connect name = false) (persistBaseline : Bool) (baseline : Option (OrderedDict String String)) :
    checkDatasources N S D W o persistBaseline baseline =
      .ok (⟨(checkSchemaDrift N S ((W name).inspector o name) baseline).1, []⟩,
        if persistBaseline then some (checkSchemaDrift N S ((W name).inspector o name) baseline).2
        else baseline) := by
  have hscans : scanEveryDatasource N S D W o = .ok [scanOf N W o S name none] := by
    rw [scanEveryDatasource, hname]
    dsimp only
    rw [hengine, if_neg Bool.false_ne_true, scanSource, hconnect, if_neg Bool.false_ne_true]
    rfl
  have hsorted : sortedStrings (S.schemasScanned N) = S.schemasScanned N :=
    (sortedStrings_sorted _).insertionSort_eq
  have hverifiable : (S.tableColumns.map (·.1)).filter
      (fun t => t ∉ (verifiableTables N S).map (·.1)) = [] := by
    rw [verifiableTables_eq]
    exact List.filter_eq_nil_iff.mpr fun t ht => by simpa using ht
  have hreport : reportOf N S D W o (baseline.getD ∅) [scanOf N W o S name none] =
      ⟨(checkSchemaDrift N S ((W name).inspector o name) baseline).1, []⟩ := by
    have hschemas : sortedStrings ([scanOf N W o S name none].flatMap (·.schemasScanned)) =
        S.schemasScanned N := by
      rw [List.flatMap_singleton, scanOf]
      exact (congrArg sortedStrings (List.map_id _)).trans hsorted
    have hone : ¬ 1 < D.names.length := by rw [hname]; simp
    unfold reportOf
    rw [shownIds_single, schemaIds_single, unverifiable_single hname, hschemas, if_neg hone]
    unfold checkSchemaDrift
    dsimp only
    rw [hverifiable]
    rfl
  unfold checkDatasources
  rw [hscans]
  dsimp only [bind, Except.bind, pure, Except.pure]
  rw [hreport, shownIds_single]
  rfl

end Single

end LocalSqlAgent
