import LocalSqlAgent.SchemaData.Registry

/-! # The sync plan

`schema_data.sync` and `schema_data.placement`: the tables of `schema.yaml` against the catalogues of
the data sources, the first half of a sync. Names are compared in lower case.

* **`locateTables`**: where each table is found.
* **`planTable`**: what a sync does to one table; **`planTables`**: to every table of the file.
* **`stale_eq_nil_iff`**, **`adds_eq_nil_iff`**: when a table found is in step with its source. -/

namespace LocalSqlAgent

/-- `Placement`: where one table was found. -/
structure Placement where
  key : String
  /-- The sources whose catalogue has the table. -/
  foundIn : List String
  /-- The table's `datasource:` as written. -/
  current : List String
  /-- `current`, or the default source. -/
  effective : List String
  /-- By source, the listed columns its table lacks. -/
  missingColumns : List (String × List String)

/-- `ColumnAdd`: a column of the database the file lacks. -/
structure ColumnAdd where
  name : String
  dataType : String
  sources : List String

/-- `TypeChange`: a recorded type the database no longer has. -/
structure TypeChange where
  column : String
  old : String
  new : String

/-- `TablePlan`: what a sync does to one table of the file. -/
structure TablePlan where
  key : String
  placement : Placement
  nowhere : Bool := false
  describedOnly : Bool := false
  unverifiable : Bool := false
  /-- Listed columns no source's table has. -/
  stale : List String := []
  /-- The stale ones to remove. -/
  pruned : List String := []
  /-- The stale ones kept under `prune`, with the reason. -/
  kept : List (String × String) := []
  /-- The listed columns the database has, in lower case. -/
  live : List String := []
  adds : List ColumnAdd := []
  /-- Types to record for listed columns. -/
  recorded : List (String × String) := []
  changed : List TypeChange := []
  shape : List String := []
  pruneTable : Bool := false
  keptTable : String := ""

/-- `SyncOptions`, as far as tables of the file are concerned. -/
structure SyncOptions where
  prune : Bool := false

/-- `_Live`: a column of the database, merged across the sources its table is in. -/
structure LiveColumn where
  name : String
  dataType : String
  sources : List String
  types : List (String × String)

/-- `SourceCatalogue`: a source's relations with their columns, all in lower case. -/
abbrev SourceCatalogue := OrderedDict (String × String) (List String)

namespace NameReader

variable (N : NameReader)

/-! ## Placement -/

/-- `_lower_catalogue`. -/
def lowerCatalogue (tables : SourceTables) : SourceCatalogue :=
  .ofPairs (tables.entries.map fun e => (e.1, e.2.columns.map fun c => N.case.lower c.name))

/-- Where one table is found. -/
def locateTable (sources : List String) (default : String) (catalogues : String → SourceCatalogue)
    (key : String) (table : TableDefinition) : Placement :=
  let location := N.tableLocation key table.dbSchema "dbo"
  let found := sources.filter fun name => location ∈ catalogues name
  { key := key
    foundIn := found
    current := table.datasource
    effective := if table.datasource = [] then [default] else table.datasource
    missingColumns := found.filterMap fun name =>
      let have' := ((catalogues name).lookup location).getD []
      let gone := table.columnNames.filter fun c => N.case.lower c ∉ have'
      if gone = [] then none else some (name, gone) }

/-- `locate_tables`. -/
def locateTables (S : SchemaConfig) (sources : List String) (default : String)
    (catalogues : String → SourceCatalogue) : List Placement :=
  S.tables.entries.map fun e => N.locateTable sources default catalogues e.1 e.2

/-! ## One table -/

/-- One column of one source joins the columns merged so far: the first source gives name and type. -/
def mergeColumn (source : String) (merged : OrderedDict String LiveColumn) (column : ColumnInfo) :
    OrderedDict String LiveColumn :=
  let low := N.case.lower column.name
  match merged.lookup low with
  | none => merged.assign low ⟨column.name, column.dataType, [source], [(source, column.dataType)]⟩
  | some seen => merged.assign low ⟨seen.name, seen.dataType, seen.sources ++ [source],
      seen.types ++ [(source, column.dataType)]⟩

/-- `_merge_columns`. -/
def mergeColumns (found : List (String × TableInfo)) : OrderedDict String LiveColumn :=
  found.foldl (fun merged f => f.2.columns.foldl (N.mergeColumn f.1) merged) ∅

/-- `_norm_type`. -/
def normType (value : String) : String :=
  N.case.lower (String.ofList (value.toList.filter fun c => !isPySpace c))

/-- A line of `shape`: a column only some of the sources have, or of several types. -/
def shapeLine (found : ℕ) (item : LiveColumn) : Option String :=
  if item.sources.length < found then
    some (item.name ++ ": only in " ++ joinStrings ", " item.sources)
  else if 1 < (item.types.map fun t => N.normType t.2).dedup.length then
    some (item.name ++ ": type differs (" ++
      joinStrings ", " (item.types.map fun t => t.1 ++ " " ++ t.2) ++ ")")
  else none

/-- `_plan_table`. -/
def planTable (table : TableDefinition) (placement : Placement) (found : List (String × TableInfo))
    (options : SyncOptions) (referenced : Bool) : TablePlan :=
  if found = [] then
    { key := placement.key, placement := placement, nowhere := true
      pruneTable := options.prune && !referenced
      keptTable := if options.prune && referenced then "still named in relationships:" else "" }
  else match table.columns with
  | none => { key := placement.key, placement := placement, describedOnly := true }
  | some columns =>
    let live := N.mergeColumns found
    if live.keys = [] then { key := placement.key, placement := placement, unverifiable := true }
    else
      let known := columns.keys.map N.case.lower
      let stale := columns.keys.filter fun c => N.case.lower c ∉ live
      { key := placement.key
        placement := placement
        stale := stale
        pruned := if options.prune then stale.filter (· ∉ table.flagged) else []
        kept := if options.prune then (stale.filter (· ∈ table.flagged)).map fun c =>
          (c, "still named in resolvable_columns or prefetchable_columns") else []
        live := (columns.keys.filter fun c => N.case.lower c ∈ live).map N.case.lower
        adds := (live.entries.filter fun e => e.1 ∉ known).map fun e =>
          ⟨e.2.name, e.2.dataType, e.2.sources⟩
        recorded := columns.keys.filterMap fun c =>
          match live.lookup (N.case.lower c), table.columnTypes.lookup c with
          | some item, none => some (c, item.dataType)
          | _, _ => none
        changed := columns.keys.filterMap fun c =>
          match live.lookup (N.case.lower c), table.columnTypes.lookup c with
          | some item, some old =>
            if N.normType old ≠ N.normType item.dataType then some ⟨c, old, item.dataType⟩ else none
          | _, _ => none
        shape := live.entries.filterMap fun e => N.shapeLine found.length e.2 }

/-- The tables of `compute_plan`. -/
def planTables (S : SchemaConfig) (sources : List String) (default : String)
    (catalogues : String → SourceTables) (options : SyncOptions) : List TablePlan :=
  let mentioned := S.relationships.flatMap fun rel => [rel.fromTable, rel.toTable]
  S.tables.entries.map fun e =>
    let placement := N.locateTable sources default (fun name => N.lowerCatalogue (catalogues name)) e.1 e.2
    let location := N.tableLocation e.1 e.2.dbSchema "dbo"
    let found := placement.foundIn.filterMap fun name =>
      ((catalogues name).lookup location).map fun info => (name, info)
    N.planTable e.2 placement found options (e.1 ∈ mentioned)

end NameReader

/-! ## A table that is found -/

section Found

variable {N : NameReader}

theorem mem_mergeColumn {source low : String} {merged : OrderedDict String LiveColumn}
    {column : ColumnInfo} :
    low ∈ N.mergeColumn source merged column ↔ low ∈ merged ∨ low = N.case.lower column.name := by
  unfold NameReader.mergeColumn
  dsimp only
  cases merged.lookup (N.case.lower column.name) with
  | none => exact OrderedDict.mem_assign.trans or_comm
  | some seen => exact OrderedDict.mem_assign.trans or_comm

/-- **The merged columns** are those of the sources' tables, in lower case. -/
theorem mem_mergeColumns {found : List (String × TableInfo)} {low : String} :
    low ∈ N.mergeColumns found ↔ ∃ f ∈ found, ∃ column ∈ f.2.columns, low = N.case.lower column.name := by
  refine (OrderedDict.foldl_iff_or _ (fun merged => low ∈ merged)
    (fun f => ∃ column ∈ f.2.columns, low = N.case.lower column.name) ?_ found ∅).trans
    (or_iff_right (AList.notMem_empty low))
  exact fun merged f => OrderedDict.foldl_iff_or (N.mergeColumn f.1) (fun merged => low ∈ merged) _
    (fun _ _ => mem_mergeColumn) f.2.columns merged

/-- A listed column is in the relation, up to letter case. -/
def TableInfo.Has (C : CaseMaps) (info : TableInfo) (column : String) : Prop :=
  ∃ c ∈ info.columns, C.lower column = C.lower c.name

/-- A column of a relation is listed, up to letter case. -/
def TableDefinition.Describes (C : CaseMaps) (table : TableDefinition) (column : String) : Prop :=
  ∃ c ∈ table.columnNames, C.lower c = C.lower column

variable {table : TableDefinition} {placement : Placement} {source : String} {info : TableInfo}
  {options : SyncOptions} {referenced : Bool}

theorem mergeColumns_keys_ne_nil (hinfo : info.columns ≠ []) :
    (N.mergeColumns [(source, info)]).keys ≠ [] := by
  obtain ⟨column, hcolumn⟩ := List.exists_mem_of_ne_nil _ hinfo
  have hmem : N.case.lower column.name ∈ N.mergeColumns [(source, info)] :=
    mem_mergeColumns.mpr ⟨_, List.mem_singleton_self _, column, hcolumn, rfl⟩
  exact List.ne_nil_of_mem (AList.mem_keys.mp hmem)

/-- A table that lists a column has a `columns:` map. -/
theorem TableDefinition.exists_columns (htable : table.columnNames ≠ []) :
    ∃ columns, table.columns = some columns ∧ table.columnNames = columns.keys := by
  cases hcolumns : table.columns with
  | none => simp [TableDefinition.columnNames, hcolumns] at htable
  | some columns => exact ⟨columns, rfl, by rw [TableDefinition.columnNames, hcolumns]; rfl⟩

/-- A table found in one source has no stale column exactly when the source has every listed one. -/
theorem stale_eq_nil_iff (htable : table.columnNames ≠ []) (hinfo : info.columns ≠ []) :
    (N.planTable table placement [(source, info)] options referenced).stale = [] ↔
      ∀ c ∈ table.columnNames, info.Has N.case c := by
  obtain ⟨columns, hcolumns, hnames⟩ := TableDefinition.exists_columns htable
  unfold NameReader.planTable
  rw [if_neg (List.cons_ne_nil _ _), hcolumns]
  dsimp only
  rw [if_neg (mergeColumns_keys_ne_nil hinfo), List.filter_eq_nil_iff, hnames]
  refine forall₂_congr fun c _ => ?_
  rw [decide_eq_true_eq, not_not, mem_mergeColumns]
  simp [TableInfo.Has]

/-- It has no column to add exactly when every column of the source is listed. -/
theorem adds_eq_nil_iff (htable : table.columnNames ≠ []) (hinfo : info.columns ≠ []) :
    (N.planTable table placement [(source, info)] options referenced).adds = [] ↔
      ∀ column ∈ info.columns, table.Describes N.case column.name := by
  obtain ⟨columns, hcolumns, hnames⟩ := TableDefinition.exists_columns htable
  unfold NameReader.planTable
  rw [if_neg (List.cons_ne_nil _ _), hcolumns]
  dsimp only
  rw [if_neg (mergeColumns_keys_ne_nil hinfo), List.map_eq_nil_iff, List.filter_eq_nil_iff]
  constructor
  · intro hknown column hcolumn
    have hmem : N.case.lower column.name ∈ N.mergeColumns [(source, info)] :=
      mem_mergeColumns.mpr ⟨_, List.mem_singleton_self _, column, hcolumn, rfl⟩
    obtain ⟨e, he, hlow⟩ := List.mem_map.mp (AList.mem_keys.mp hmem)
    have hlisted := hknown e he
    rw [decide_eq_true_eq, not_not, hlow, List.mem_map] at hlisted
    rw [TableDefinition.Describes, hnames]
    exact hlisted
  · intro hdescribed e he
    have hmem : e.1 ∈ N.mergeColumns [(source, info)] :=
      AList.mem_keys.mpr (List.mem_keys_of_mem he)
    obtain ⟨f, hf, column, hcolumn, hlow⟩ := mem_mergeColumns.mp hmem
    rw [List.mem_singleton] at hf
    subst hf
    rw [decide_eq_true_eq, not_not, hlow, List.mem_map, ← hnames]
    exact hdescribed column hcolumn

end Found

/-! ## The plan of one source -/

section OneSource

variable {N : NameReader} {S : SchemaConfig} {source key : String} {catalogue : SourceTables}
  {table : TableDefinition} {info : TableInfo}

theorem mem_lowerCatalogue {tables : SourceTables} {location : String × String} :
    location ∈ N.lowerCatalogue tables ↔ location ∈ tables := by
  unfold NameReader.lowerCatalogue
  rw [OrderedDict.mem_ofPairs, AList.mem_keys, AList.keys]
  simp only [List.mem_map, List.keys]
  constructor
  · rintro ⟨p, ⟨e, he, rfl⟩, rfl⟩
    exact ⟨e, he, rfl⟩
  · rintro ⟨e, he, rfl⟩
    exact ⟨_, ⟨e, he, rfl⟩, rfl⟩

@[simp] theorem planTable_key {placement : Placement} {found : List (String × TableInfo)}
    {options : SyncOptions} {referenced : Bool} :
    (N.planTable table placement found options referenced).key = placement.key := by
  unfold NameReader.planTable
  split
  · rfl
  · cases table.columns with
    | none => rfl
    | some columns =>
      dsimp only
      split <;> rfl

/-- **The plan of a table found** in the one source there is: `planTable` on what the catalogue has. -/
theorem mem_planTables_iff {options : SyncOptions} {plan : TablePlan}
    (hlookup : S.tables.lookup key = some table)
    (hfound : catalogue.lookup (N.tableLocation key table.dbSchema "dbo") = some info) :
    plan ∈ N.planTables S [source] source (fun _ => catalogue) options ∧ plan.key = key ↔
      plan = N.planTable table
        (N.locateTable [source] source (fun _ => N.lowerCatalogue catalogue) key table)
        [(source, info)] options (key ∈ S.relationships.flatMap fun rel => [rel.fromTable, rel.toTable]) := by
  have hlocated : N.tableLocation key table.dbSchema "dbo" ∈ N.lowerCatalogue catalogue :=
    mem_lowerCatalogue.mpr (AList.lookup_isSome.mp (by rw [hfound]; rfl))
  have hin : (N.locateTable [source] source (fun _ => N.lowerCatalogue catalogue) key table).foundIn =
      [source] := by
    unfold NameReader.locateTable
    simp [hlocated]
  unfold NameReader.planTables
  rw [List.mem_map]
  constructor
  · rintro ⟨⟨⟨key', table'⟩, he, rfl⟩, hkey⟩
    -- keys do not repeat, so the entry of this key is this table
    have hkey' : key' = key := by
      rw [planTable_key] at hkey
      exact hkey
    subst hkey'
    cases (AList.mem_lookup_iff.mpr he).symm.trans hlookup
    dsimp only
    rw [hin, List.filterMap_cons, hfound]
    rfl
  · rintro rfl
    refine ⟨⟨⟨key, table⟩, AList.mem_lookup_iff.mp hlookup, ?_⟩, planTable_key⟩
    dsimp only
    rw [hin, List.filterMap_cons, hfound]
    rfl

end OneSource

end LocalSqlAgent
