import LocalSqlAgent.SchemaData.Registry

/-! # The drift report

`schema_data.drift`: the tables of `schema.yaml` against what SQLAlchemy's reflection shows on one
engine. Columns are compared as report ids, the text `table.column`.

* **`scanLive`**: the tables reflection lists under each qualifier of the file, and under none.
* **`checkSchemaDrift`**: the report, and the types it leaves for the next run.
* **`mem_liveColIds`**, **`mem_schemaColIds`**: the ids of either side, from the inspector's answers and
  from the file. -/

namespace LocalSqlAgent

/-- SQLAlchemy's inspector of an engine; `none` where a call raises. -/
structure Inspector where
  /-- `get_table_names`: the tables of a schema, not its views. -/
  tableNames : Option String → Option (List String)
  /-- `get_columns`: names with their types as text. -/
  columns : Option String → String → Option (List (String × String))

/-- Reflection on a source that holds these relations, schemas and tables found in any letter case. -/
def Inspector.ofRelations (C : CaseMaps) (relations : List TableInfo) : Inspector where
  tableNames schema := some ((relations.filter fun r =>
    !r.isView && C.lower r.schema = C.lower (schema.getD "dbo")).map (·.name))
  columns schema table := (relations.find? fun r =>
    C.lower r.schema = C.lower (schema.getD "dbo") && C.lower r.name = C.lower table).map fun r =>
      r.columns.map fun c => (c.name, c.dataType)

/-- `live`: by scanned schema and table name, the columns with their normalised types. -/
abbrev LiveTables := OrderedDict (String × String) (OrderedDict String String)

/-- `SchemaDriftReport.type_changed`. -/
structure TypeChanged where
  column : String
  previousType : String
  currentType : String

/-- `SchemaDriftReport`, without its time stamp. -/
structure SchemaDriftReport where
  schemasScanned : List String
  warehouseOnly : List String
  schemaOnly : List String
  typeChanged : List TypeChanged
  unverifiableTables : List String
  baselineAvailable : Bool

section Scan

variable (N : NameReader) (S : SchemaConfig) (I : Inspector)

/-- `_normalise_type`. -/
def NameReader.normaliseType (text : String) : String :=
  let token := N.case.lower (String.ofList (strip ((splitText '(' text).headD "").toList))
  if token = "" then "unknown" else token

/-- The qualifiers of the queryable tables. -/
def SchemaConfig.schemasScanned : List String :=
  sortedStrings (((S.tableColumns.map fun e => S.tableSchema N e.1).filter (· ≠ "")).dedup)

/-- Whether some queryable table has no qualifier. -/
def SchemaConfig.scanDefaultSchema : Bool := S.tableColumns.any fun e => S.tableSchema N e.1 = ""

/-- The schemas reflection is asked for. -/
def SchemaConfig.scanTargets : List (Option String) :=
  (S.schemasScanned N).map some ++ if S.scanDefaultSchema N then [none] else []

/-- One table of one schema: its columns join those already read under the same name. -/
def readTable (schema : Option String) (live : LiveTables) (table : String) : LiveTables :=
  match I.columns schema table with
  | none => live
  | some columns =>
    let key := (schema.getD "", table)
    live.assign key (columns.foldl (fun d c => d.assign c.1 (N.normaliseType c.2))
      ((live.lookup key).getD ∅))

/-- One schema; one that cannot be listed is passed over. -/
def readSchema (live : LiveTables) (schema : Option String) : LiveTables :=
  match I.tableNames schema with
  | none => live
  | some names => names.foldl (readTable N I schema) live

/-- `_scan`'s `live`. -/
def scanLive : LiveTables := (S.scanTargets N).foldl (readSchema N I) ∅

/-- `_scan`'s `verifiable_tables`. -/
def verifiableTables : List (String × TableDefinition) :=
  S.tableColumns.filter fun e =>
    S.tableSchema N e.1 ∈ S.schemasScanned N ∨ (S.scanDefaultSchema N ∧ S.tableSchema N e.1 = "")

end Scan

/-! ## The report -/

section Report

variable (N : NameReader) (S : SchemaConfig) (I : Inspector)

/-- `key_by_schema_and_bare`: the key a live table is reported under; of two, the later one. -/
def keyBySchemaAndBare : OrderedDict (String × String) String :=
  .ofPairs (S.tableColumns.map fun e => ((S.tableSchema N e.1, N.bareTableName e.1), e.1))

/-- `table_id`: the key of a live table, else its name with the schema it was scanned under. -/
def tableId (live : String × String) : String :=
  match (keyBySchemaAndBare N S).lookup live with
  | some key => key
  | none => if live.1 ≠ "" then live.1 ++ "." ++ live.2 else live.2

/-- `_column_id`. -/
def columnId (table column : String) : String := table ++ "." ++ column

/-- `schema_col_ids`. -/
def schemaColIds : List String :=
  ((verifiableTables N S).flatMap fun e => e.2.columnNames.map (columnId e.1)).dedup

/-- `live_col_ids`, with the types. -/
def liveColIds : OrderedDict String String :=
  .ofPairs ((scanLive N S I).entries.flatMap fun e =>
    e.2.entries.map fun c => (columnId (tableId N S e.1) c.1, c.2))

/-- `check_schema_drift` on one engine, with the types the last run left; the types this one leaves. -/
def checkSchemaDrift (baseline : Option (OrderedDict String String)) :
    SchemaDriftReport × OrderedDict String String :=
  let schemaIds := schemaColIds N S
  let live := liveColIds N S I
  let previous := baseline.getD ∅
  ({ schemasScanned := S.schemasScanned N
     warehouseOnly := sortedStrings (live.keys.filter (· ∉ schemaIds))
     schemaOnly := sortedStrings (schemaIds.filter (· ∉ live.keys))
     typeChanged := (sortedStrings (schemaIds.filter (· ∈ live.keys))).filterMap fun id =>
       match previous.lookup id, live.lookup id with
       | some old, some new => if old ≠ new then some ⟨id, old, new⟩ else none
       | _, _ => none
     unverifiableTables := sortedStrings ((S.tableColumns.map (·.1)).filter fun t =>
       t ∉ (verifiableTables N S).map (·.1))
     baselineAvailable := decide (previous.keys ≠ []) }, live)

end Report

/-! ## What is scanned -/

section Spec

variable {N : NameReader} {S : SchemaConfig} {I : Inspector}

theorem mem_schemasScanned {schema : String} :
    schema ∈ S.schemasScanned N ↔ schema ≠ "" ∧ ∃ e ∈ S.tableColumns, S.tableSchema N e.1 = schema := by
  unfold SchemaConfig.schemasScanned sortedStrings
  rw [List.mem_insertionSort, List.mem_dedup, List.mem_filter, List.mem_map, and_comm,
    decide_eq_true_eq]

/-- Every queryable table's schema is scanned, so none is unverifiable. -/
theorem verifiableTables_eq : verifiableTables N S = S.tableColumns := by
  refine List.filter_eq_self.mpr fun e he => decide_eq_true ?_
  by_cases hschema : S.tableSchema N e.1 = ""
  · have hdefault : S.scanDefaultSchema N = true :=
      List.any_eq_true.mpr ⟨e, he, decide_eq_true hschema⟩
    exact Or.inr ⟨hdefault, hschema⟩
  · exact Or.inl (mem_schemasScanned.mpr ⟨hschema, e, he, rfl⟩)

theorem mem_schemaColIds {id : String} :
    id ∈ schemaColIds N S ↔
      ∃ e ∈ S.tableColumns, ∃ column ∈ e.2.columnNames, columnId e.1 column = id := by
  unfold schemaColIds
  rw [List.mem_dedup, verifiableTables_eq, List.mem_flatMap]
  simp only [List.mem_map]

/-- The live tables show a column under a name. -/
def LiveTables.Shows (live : LiveTables) (key : String × String) (column : String) : Prop :=
  ∃ columns, live.lookup key = some columns ∧ column ∈ columns

/-- Reflection lists a table with a column under a schema. -/
def Inspector.Reflects (I : Inspector) (schema : Option String) (table column : String) : Prop :=
  (∃ names, I.tableNames schema = some names ∧ table ∈ names) ∧
    ∃ columns, I.columns schema table = some columns ∧ ∃ c ∈ columns, column = c.1

theorem shows_readTable {schema : Option String} {live : LiveTables} {table : String}
    {key : String × String} {column : String} :
    (readTable N I schema live table).Shows key column ↔
      live.Shows key column ∨ key = (schema.getD "", table) ∧
        ∃ columns, I.columns schema table = some columns ∧ ∃ c ∈ columns, column = c.1 := by
  unfold readTable
  cases hcols : I.columns schema table with
  | none => simp
  | some columns =>
    simp only [Option.some.injEq, exists_eq_left']
    by_cases hkey : key = (schema.getD "", table)
    · -- the columns read join the ones already under the name
      subst hkey
      have hmem : column ∈ columns.foldl (fun d c => d.assign c.1 (N.normaliseType c.2))
            ((live.lookup (schema.getD "", table)).getD ∅) ↔
          column ∈ (live.lookup (schema.getD "", table)).getD ∅ ∨ ∃ c ∈ columns, column = c.1 :=
        OrderedDict.foldl_iff_or _ (fun d => column ∈ d) (fun c => column = c.1)
          (fun _ _ => OrderedDict.mem_assign.trans or_comm) columns _
      have hshown : live.Shows (schema.getD "", table) column ↔
          column ∈ (live.lookup (schema.getD "", table)).getD ∅ := by
        unfold LiveTables.Shows
        cases live.lookup (schema.getD "", table) <;> simp
      simp only [LiveTables.Shows, OrderedDict.lookup_assign_self, Option.some.injEq, exists_eq_left',
        true_and]
      rw [hmem]
      exact or_congr_left hshown.symm
    · simp only [LiveTables.Shows, OrderedDict.lookup_assign_of_ne _ _ hkey, hkey, false_and, or_false]

theorem shows_readSchema {schema : Option String} {live : LiveTables} {key : String × String}
    {column : String} :
    (readSchema N I live schema).Shows key column ↔
      live.Shows key column ∨ key.1 = schema.getD "" ∧ I.Reflects schema key.2 column := by
  unfold readSchema
  cases hnames : I.tableNames schema with
  | none => simp [Inspector.Reflects, hnames]
  | some names =>
    refine (OrderedDict.foldl_iff_or (readTable N I schema) (fun live => live.Shows key column) _
      (fun _ _ => shows_readTable) names live).trans (or_congr_right ⟨?_, ?_⟩)
    · rintro ⟨table, htable, rfl, hcols⟩
      exact ⟨rfl, ⟨names, hnames, htable⟩, hcols⟩
    · rintro ⟨hschema, ⟨names', hnames', htable⟩, hcols⟩
      cases hnames.symm.trans hnames'
      exact ⟨key.2, htable, Prod.ext hschema rfl, hcols⟩

/-- **What the scan shows**: what reflection lists under one of the schemas asked for. -/
theorem shows_scanLive {key : String × String} {column : String} :
    (scanLive N S I).Shows key column ↔
      ∃ schema ∈ S.scanTargets N, key.1 = schema.getD "" ∧ I.Reflects schema key.2 column := by
  unfold scanLive
  refine (OrderedDict.foldl_iff_or (readSchema N I) (fun live => live.Shows key column) _
    (fun _ _ => shows_readSchema) _ ∅).trans (or_iff_right ?_)
  rintro ⟨columns, hlookup, -⟩
  simp at hlookup

theorem mem_liveColIds {id : String} :
    id ∈ liveColIds N S I ↔ ∃ schema ∈ S.scanTargets N, ∃ table column,
      I.Reflects schema table column ∧ columnId (tableId N S (schema.getD "", table)) column = id := by
  unfold liveColIds
  rw [OrderedDict.mem_ofPairs]
  simp only [List.mem_flatMap, List.mem_map]
  constructor
  · rintro ⟨p, ⟨e, he, c, hc, rfl⟩, rfl⟩
    have hshown : (scanLive N S I).Shows e.1 c.1 :=
      ⟨e.2, AList.mem_lookup_iff.mpr he, AList.mem_keys.mpr (List.mem_keys_of_mem hc)⟩
    obtain ⟨schema, hschema, hkey, hreflects⟩ := shows_scanLive.mp hshown
    refine ⟨schema, hschema, e.1.2, c.1, hreflects, ?_⟩
    rw [← hkey]
  · rintro ⟨schema, hschema, table, column, hreflects, rfl⟩
    have hshown : (scanLive N S I).Shows (schema.getD "", table) column :=
      shows_scanLive.mpr ⟨schema, hschema, rfl, hreflects⟩
    obtain ⟨columns, hlookup, hmem⟩ := hshown
    obtain ⟨c, hc, rfl⟩ := List.mem_map.mp (AList.mem_keys.mp hmem)
    exact ⟨_, ⟨⟨(schema.getD "", table), columns⟩, AList.mem_lookup_iff.mp hlookup, c, hc, rfl⟩, rfl⟩

variable {baseline : Option (OrderedDict String String)}

/-- A `schema_only` column: listed, and shown by no table scanned. -/
theorem mem_schemaOnly {id : String} :
    id ∈ (checkSchemaDrift N S I baseline).1.schemaOnly ↔
      id ∈ schemaColIds N S ∧ id ∉ liveColIds N S I := by
  show id ∈ sortedStrings _ ↔ _
  rw [sortedStrings, List.mem_insertionSort, List.mem_filter, decide_eq_true_eq, AList.mem_keys]

/-- A `warehouse_only` column: shown, and listed by no table. -/
theorem mem_warehouseOnly {id : String} :
    id ∈ (checkSchemaDrift N S I baseline).1.warehouseOnly ↔
      id ∈ liveColIds N S I ∧ id ∉ schemaColIds N S := by
  show id ∈ sortedStrings _ ↔ _
  rw [sortedStrings, List.mem_insertionSort, List.mem_filter, decide_eq_true_eq, AList.mem_keys]

end Spec

end LocalSqlAgent
