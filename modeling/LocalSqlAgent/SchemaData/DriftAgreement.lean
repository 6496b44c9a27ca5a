import LocalSqlAgent.SchemaData.Drift
import LocalSqlAgent.SchemaData.SyncPlan

/-! # Drift report and sync plan

The two readers of one catalogue side by side. The report compares letter for letter what reflection
lists under a key's whole qualifier, tables only; the plan compares in lower case what the catalogue has
at the key's location, views included.

* **`DriftAgrees`**: report and plan agree on a table: stale columns on one side exactly when on the
  other, added columns likewise.
* **`ReadsAlike`**: where the two readings differ, something else makes up for it.
* **`driftAgrees_iff`**: they agree exactly then. `readsAlike_iff_of_unlisted` and
  `readsAlike_iff_of_same` say what that means for a relation reflection does not list, as a view, and
  for one both readers see. -/

namespace LocalSqlAgent

/-- **Report and plan agree on a table.** -/
structure DriftAgrees (report : SchemaDriftReport) (plan : TablePlan) (key : String)
    (table : TableDefinition) : Prop where
  /-- Some listed column is missing for the report exactly when some is stale for the plan. -/
  schemaOnly : (∃ c ∈ table.columnNames, columnId key c ∈ report.schemaOnly) ↔ plan.stale ≠ []
  /-- Some column is unlisted for the report exactly when the plan adds one. -/
  warehouseOnly : (∃ c, columnId key c ∈ report.warehouseOnly) ↔ plan.adds ≠ []

section Readings

variable (N : NameReader) (S : SchemaConfig) (I : Inspector) (source : String) (catalogue : SourceTables)

/-- Report and plan agree on a table, run on one source. -/
def AgreeOn (options : SyncOptions) (baseline : Option (OrderedDict String String)) (key : String)
    (table : TableDefinition) : Prop :=
  ∃ plan ∈ N.planTables S [source] source (fun _ => catalogue) options,
    plan.key = key ∧ DriftAgrees (checkSchemaDrift N S I baseline).1 plan key table

/-- Reflection shows a column whose report id is that of the table's column. -/
def Shown (key column : String) : Prop :=
  ∃ schema ∈ S.scanTargets N, ∃ table c, I.Reflects schema table c ∧
    columnId (tableId N S (schema.getD "", table)) c = columnId key column

/-- The file lists a column with that report id. -/
def Listed (key column : String) : Prop :=
  ∃ e ∈ S.tableColumns, ∃ c ∈ e.2.columnNames, columnId e.1 c = columnId key column

/-- **The two readings come to the same for a table**: they may differ on a column only where another
one makes up for it. -/
structure ReadsAlike (key : String) (table : TableDefinition) (info : TableInfo) : Prop where
  /-- A listed column the catalogue has and reflection does not show: another one it lacks. -/
  alarm : (∃ c ∈ table.columnNames, info.Has N.case c ∧ ¬ Shown N S I key c) →
    ∃ c ∈ table.columnNames, ¬ info.Has N.case c
  /-- A listed column reflection shows and the catalogue lacks: another one it does not show. -/
  missed : (∃ c ∈ table.columnNames, Shown N S I key c ∧ ¬ info.Has N.case c) →
    ∃ c ∈ table.columnNames, ¬ Shown N S I key c
  /-- An unlisted column reflection shows: the catalogue has one listed in no letter case. -/
  surplus : (∃ c, Shown N S I key c ∧ ¬ Listed S key c) →
    ∃ column ∈ info.columns, ¬ table.Describes N.case column.name
  /-- A column of the catalogue listed in no letter case: reflection shows an unlisted one. -/
  gap : (∃ column ∈ info.columns, ¬ table.Describes N.case column.name) →
    ∃ c, Shown N S I key c ∧ ¬ Listed S key c

variable {N S I source catalogue} {key : String} {table : TableDefinition} {info : TableInfo}

theorem schemaOnly_column {baseline : Option (OrderedDict String String)} {column : String} :
    columnId key column ∈ (checkSchemaDrift N S I baseline).1.schemaOnly ↔
      Listed S key column ∧ ¬ Shown N S I key column := by
  rw [mem_schemaOnly, mem_schemaColIds, mem_liveColIds]
  rfl

theorem warehouseOnly_column {baseline : Option (OrderedDict String String)} {column : String} :
    columnId key column ∈ (checkSchemaDrift N S I baseline).1.warehouseOnly ↔
      Shown N S I key column ∧ ¬ Listed S key column := by
  rw [mem_warehouseOnly, mem_schemaColIds, mem_liveColIds]
  rfl

theorem listed_of_mem (hlookup : S.tables.lookup key = some table) {c : String}
    (hc : c ∈ table.columnNames) : Listed S key c :=
  ⟨(key, table), SchemaConfig.mem_tableColumns.mpr ⟨hlookup, List.ne_nil_of_mem hc⟩, c, hc, rfl⟩

/-- Two ways to find no exception among the same columns agree exactly when neither finds one alone. -/
theorem exists_iff_exists {α : Type*} {l : List α} {p q : α → Prop} :
    ((∃ a ∈ l, ¬ p a) ↔ ∃ a ∈ l, ¬ q a) ↔
      ((∃ a ∈ l, q a ∧ ¬ p a) → ∃ a ∈ l, ¬ q a) ∧ ((∃ a ∈ l, p a ∧ ¬ q a) → ∃ a ∈ l, ¬ p a) := by
  constructor
  · rintro h
    exact ⟨fun ⟨a, ha, _, hp⟩ => h.mp ⟨a, ha, hp⟩, fun ⟨a, ha, _, hq⟩ => h.mpr ⟨a, ha, hq⟩⟩
  · rintro ⟨hp, hq⟩
    constructor
    · rintro ⟨a, ha, hpa⟩
      by_cases hqa : q a
      exacts [hp ⟨a, ha, hqa, hpa⟩, ⟨a, ha, hqa⟩]
    · rintro ⟨a, ha, hqa⟩
      by_cases hpa : p a
      exacts [hq ⟨a, ha, hpa, hqa⟩, ⟨a, ha, hpa⟩]

/-- Report and plan agree on a table found when the exceptions to either side's comparison go together. -/
theorem agreeOn_iff {options : SyncOptions} {baseline : Option (OrderedDict String String)}
    (hlookup : S.tables.lookup key = some table) (hqueryable : table.columnNames ≠ [])
    (hfound : catalogue.lookup (N.tableLocation key table.dbSchema "dbo") = some info)
    (hread : info.columns ≠ []) :
    AgreeOn N S I source catalogue options baseline key table ↔
      ((∃ c ∈ table.columnNames, ¬ Shown N S I key c) ↔ ∃ c ∈ table.columnNames, ¬ info.Has N.case c) ∧
      ((∃ c, Shown N S I key c ∧ ¬ Listed S key c) ↔
        ∃ column ∈ info.columns, ¬ table.Describes N.case column.name) := by
  have hreport : (∃ c ∈ table.columnNames,
      columnId key c ∈ (checkSchemaDrift N S I baseline).1.schemaOnly) ↔
        ∃ c ∈ table.columnNames, ¬ Shown N S I key c := by
    refine exists_congr fun c => and_congr_right fun hc => ?_
    rw [schemaOnly_column]
    exact and_iff_right (listed_of_mem hlookup hc)
  have hunlisted : (∃ c, columnId key c ∈ (checkSchemaDrift N S I baseline).1.warehouseOnly) ↔
      ∃ c, Shown N S I key c ∧ ¬ Listed S key c := exists_congr fun c => warehouseOnly_column
  have hstale : ∀ placement referenced,
      (N.planTable table placement [(source, info)] options referenced).stale ≠ [] ↔
        ∃ c ∈ table.columnNames, ¬ info.Has N.case c := by
    intro placement referenced
    rw [ne_eq, stale_eq_nil_iff hqueryable hread]
    push Not
    rfl
  have hadds : ∀ placement referenced,
      (N.planTable table placement [(source, info)] options referenced).adds ≠ [] ↔
        ∃ column ∈ info.columns, ¬ table.Describes N.case column.name := by
    intro placement referenced
    rw [ne_eq, adds_eq_nil_iff hqueryable hread]
    push Not
    rfl
  constructor
  · rintro ⟨plan, hplan, hkey, hschema, hwarehouse⟩
    rw [(mem_planTables_iff hlookup hfound).mp ⟨hplan, hkey⟩] at hschema hwarehouse
    rw [hreport, hstale] at hschema
    rw [hunlisted, hadds] at hwarehouse
    exact ⟨hschema, hwarehouse⟩
  · rintro ⟨hschema, hwarehouse⟩
    obtain ⟨hplan, hkey⟩ :=
      (@mem_planTables_iff N S source key catalogue table info options _ hlookup hfound).mpr rfl
    refine ⟨_, hplan, hkey, ?_, ?_⟩
    · rw [hreport, hstale]
      exact hschema
    · rw [hunlisted, hadds]
      exact hwarehouse

/-- **Report and plan agree on a table found exactly when its two readings come to the same.** -/
theorem driftAgrees_iff {options : SyncOptions} {baseline : Option (OrderedDict String String)}
    (hlookup : S.tables.lookup key = some table) (hqueryable : table.columnNames ≠ [])
    (hfound : catalogue.lookup (N.tableLocation key table.dbSchema "dbo") = some info)
    (hread : info.columns ≠ []) :
    AgreeOn N S I source catalogue options baseline key table ↔ ReadsAlike N S I key table info := by
  rw [agreeOn_iff hlookup hqueryable hfound hread, exists_iff_exists]
  constructor
  · rintro ⟨⟨halarm, hmissed⟩, hwarehouse⟩
    exact ⟨halarm, hmissed, hwarehouse.mp, hwarehouse.mpr⟩
  · rintro ⟨halarm, hmissed, hsurplus, hgap⟩
    exact ⟨⟨halarm, hmissed⟩, hsurplus, hgap⟩

/-! ## One relation, seen or not -/

/-- What reflection is asked for to see a table: its whole qualifier, or nothing. -/
def scanTarget (N : NameReader) (S : SchemaConfig) (key : String) : Option String :=
  if S.tableSchema N key = "" then none else some (S.tableSchema N key)

/-- **The report ids of a table are its own**: no other table, listed or live, has one of that form. -/
structure OwnIds (N : NameReader) (S : SchemaConfig) (I : Inspector) (key : String) : Prop where
  /-- The relation under the key's qualifier and name is reported under the key. -/
  reported : tableId N S (S.tableSchema N key, N.bareTableName key) = key
  /-- A live column with such an id is a column of that relation. -/
  live : ∀ schema ∈ S.scanTargets N, ∀ table c column, I.Reflects schema table c →
    columnId (tableId N S (schema.getD "", table)) c = columnId key column →
      schema = scanTarget N S key ∧ table = N.bareTableName key ∧ c = column
  /-- A listed column with such an id is the table's. -/
  listed : ∀ e ∈ S.tableColumns, ∀ c ∈ e.2.columnNames, ∀ column,
    columnId e.1 c = columnId key column → e.1 = key ∧ c = column

theorem scanTarget_mem (hlookup : S.tables.lookup key = some table) (hqueryable : table.columnNames ≠ []) :
    scanTarget N S key ∈ S.scanTargets N := by
  have hmem : (key, table) ∈ S.tableColumns := SchemaConfig.mem_tableColumns.mpr ⟨hlookup, hqueryable⟩
  unfold scanTarget SchemaConfig.scanTargets
  by_cases hschema : S.tableSchema N key = ""
  · have hdefault : S.scanDefaultSchema N = true :=
      List.any_eq_true.mpr ⟨_, hmem, decide_eq_true hschema⟩
    simp [hschema, hdefault]
  · rw [if_neg hschema, List.mem_append, List.mem_map]
    exact Or.inl ⟨_, mem_schemasScanned.mpr ⟨hschema, _, hmem, rfl⟩, rfl⟩

theorem scanTarget_getD : (scanTarget N S key).getD "" = S.tableSchema N key := by
  unfold scanTarget
  split
  · rename_i hschema
    exact hschema.symm
  · rfl

/-- A table whose ids are its own is shown what reflection lists under its whole qualifier and its exact
name. -/
theorem shown_iff (hids : OwnIds N S I key) (hlookup : S.tables.lookup key = some table)
    (hqueryable : table.columnNames ≠ []) {column : String} :
    Shown N S I key column ↔ I.Reflects (scanTarget N S key) (N.bareTableName key) column := by
  constructor
  · rintro ⟨schema, hschema, t, c, hreflects, hid⟩
    obtain ⟨rfl, rfl, rfl⟩ := hids.live schema hschema t c column hreflects hid
    exact hreflects
  · intro hreflects
    refine ⟨_, scanTarget_mem hlookup hqueryable, _, column, hreflects, ?_⟩
    rw [scanTarget_getD, hids.reported]

theorem listed_iff (hids : OwnIds N S I key) (hlookup : S.tables.lookup key = some table) {column : String} :
    Listed S key column ↔ column ∈ table.columnNames := by
  constructor
  · rintro ⟨e, he, c, hc, hid⟩
    obtain ⟨hkey, rfl⟩ := hids.listed e he c hc column hid
    rw [show e = (key, e.2) from Prod.ext hkey rfl, SchemaConfig.mem_tableColumns] at he
    cases hlookup.symm.trans he.1
    exact hc
  · exact listed_of_mem hlookup

/-- **A relation reflection does not list**, as a view or a name in other letter case: report and plan
agree only when the file lists all of its columns and one it does not have. -/
theorem readsAlike_iff_of_unlisted (hids : OwnIds N S I key) (hlookup : S.tables.lookup key = some table)
    (hqueryable : table.columnNames ≠ [])
    (hunlisted : ∀ names, I.tableNames (scanTarget N S key) = some names → N.bareTableName key ∉ names) :
    ReadsAlike N S I key table info ↔
      (∃ c ∈ table.columnNames, ¬ info.Has N.case c) ∧
        ∀ column ∈ info.columns, table.Describes N.case column.name := by
  have hnone : ∀ c, ¬ Shown N S I key c := fun c hshown => by
    obtain ⟨⟨names, hnames, hmem⟩, -⟩ := (shown_iff hids hlookup hqueryable).mp hshown
    exact hunlisted names hnames hmem
  constructor
  · rintro ⟨halarm, -, -, hgap⟩
    refine ⟨?_, fun column hcolumn => ?_⟩
    · obtain ⟨c, hc⟩ := List.exists_mem_of_ne_nil _ hqueryable
      by_cases hhas : info.Has N.case c
      exacts [halarm ⟨c, hc, hhas, hnone c⟩, ⟨c, hc, hhas⟩]
    · by_contra hundescribed
      obtain ⟨c, hshown, -⟩ := hgap ⟨column, hcolumn, hundescribed⟩
      exact hnone c hshown
  · rintro ⟨hmissing, hdescribed⟩
    exact ⟨fun _ => hmissing, fun ⟨c, _, hshown, _⟩ => absurd hshown (hnone c),
      fun ⟨c, hshown, _⟩ => absurd hshown (hnone c),
      fun ⟨column, hcolumn, hundescribed⟩ => absurd (hdescribed column hcolumn) hundescribed⟩

/-- **A relation both readers see**: they agree unless columns differ from listed ones in letter case
alone, with none missing altogether beside them. -/
theorem readsAlike_iff_of_same (hids : OwnIds N S I key) (hlookup : S.tables.lookup key = some table)
    (hqueryable : table.columnNames ≠ [])
    (hsame : ∀ column, I.Reflects (scanTarget N S key) (N.bareTableName key) column ↔
      column ∈ info.columns.map (·.name)) :
    ReadsAlike N S I key table info ↔
      ((∃ c ∈ table.columnNames, info.Has N.case c ∧ c ∉ info.columns.map (·.name)) →
        ∃ c ∈ table.columnNames, ¬ info.Has N.case c) ∧
      ((∃ c ∈ info.columns.map (·.name), c ∉ table.columnNames) →
        ∃ column ∈ info.columns, ¬ table.Describes N.case column.name) := by
  have hshown : ∀ c, Shown N S I key c ↔ c ∈ info.columns.map (·.name) := fun c =>
    (shown_iff hids hlookup hqueryable).trans (hsame c)
  have hhas : ∀ c, Shown N S I key c → info.Has N.case c := fun c hc => by
    obtain ⟨column, hcolumn, rfl⟩ := List.mem_map.mp ((hshown c).mp hc)
    exact ⟨column, hcolumn, rfl⟩
  constructor
  · rintro ⟨halarm, -, hsurplus, -⟩
    refine ⟨fun ⟨c, hc, hin, hnot⟩ => halarm ⟨c, hc, hin, fun h => hnot ((hshown c).mp h)⟩, ?_⟩
    rintro ⟨c, hc, hnot⟩
    exact hsurplus ⟨c, (hshown c).mpr hc, fun h => hnot ((listed_iff hids hlookup).mp h)⟩
  · rintro ⟨hletters, hextra⟩
    refine ⟨fun ⟨c, hc, hin, hnot⟩ => hletters ⟨c, hc, hin, fun h => hnot ((hshown c).mpr h)⟩,
      fun ⟨c, _, hc, hnot⟩ => absurd (hhas c hc) hnot, ?_, ?_⟩
    · rintro ⟨c, hc, hnot⟩
      exact hextra ⟨c, (hshown c).mp hc, fun h => hnot ((listed_iff hids hlookup).mpr h)⟩
    · -- a column listed in no letter case is not listed letter for letter
      rintro ⟨column, hcolumn, hundescribed⟩
      refine ⟨column.name, (hshown _).mpr (List.mem_map_of_mem hcolumn), fun hlisted => hundescribed ?_⟩
      exact ⟨_, (listed_iff hids hlookup).mp hlisted, rfl⟩

end Readings

/-! ## A view and a table -/

/-- Keys split at their dots, names compared as ASCII text. -/
def dottedNames : NameReader where
  splitTableKey key := ⟨(splitText '.' key).dropLast, (splitText '.' key).getLastD ""⟩
  case := asciiCase

/-- `Customer: {db_schema: sales, columns: {ID: …}}`. -/
def customerTable : TableDefinition where
  columns := some (.ofPairs [("ID", "primary key")])
  dbSchema := "sales"

/-- A file that lists the one table. -/
def customerFile : SchemaConfig where
  tables := .ofPairs [("Customer", customerTable)]

/-- `sales.Customer` in the database, with the one column. -/
def customerRelation (isView : Bool) : TableInfo := ⟨"sales", "Customer", isView, [⟨"ID", "int", false⟩]⟩

theorem customerFile_lookup : customerFile.tables.lookup "Customer" = some customerTable := rfl

theorem customerRelation_found (isView : Bool) :
    (readCatalogue asciiCase [customerRelation isView]).lookup
      (dottedNames.tableLocation "Customer" customerTable.dbSchema "dbo") =
        some (customerRelation isView) := by
  have hlocation : dottedNames.tableLocation "Customer" customerTable.dbSchema "dbo" =
      (customerRelation isView).location asciiCase := by cases isView <;> decide
  rw [hlocation]
  exact OrderedDict.lookup_assign_self _ _ _

theorem customerFile_valid : customerFile.Valid dottedNames where
  tables := by
    rintro e (_ | ⟨_, ⟨⟩⟩)
    exact ⟨by simp [customerTable], fun _ => by decide, by simp [customerTable, TableDefinition.flagged],
      by simp [customerTable, TableDefinition.flagged], fun h => absurd (by decide) h⟩
  distinct := List.pairwise_singleton _ _

theorem customerView_not_shown (column : String) :
    ¬ Shown dottedNames customerFile (.ofRelations asciiCase [customerRelation true]) "Customer" column := by
  rintro ⟨schema, -, table, c, ⟨⟨names, hnames, htable⟩, -⟩, -⟩
  cases hnames
  exact absurd htable List.not_mem_nil

/-- **A view listed exactly as it stands is a false alarm**: the report misses its column, the plan has
nothing to do. -/
theorem customerView_disagrees :
    customerFile.Valid dottedNames ∧
    ¬ AgreeOn dottedNames customerFile (.ofRelations asciiCase [customerRelation true]) "warehouse"
      (readCatalogue asciiCase [customerRelation true]) {} none "Customer" customerTable := by
  refine ⟨customerFile_valid, fun hagree => ?_⟩
  have hboth := (agreeOn_iff customerFile_lookup (by decide) (customerRelation_found true)
    (List.cons_ne_nil _ _)).mp hagree
  have hlisted : "ID" ∈ customerTable.columnNames := List.mem_singleton_self _
  obtain ⟨c, hc, hnot⟩ := hboth.1.mp ⟨"ID", hlisted, customerView_not_shown _⟩
  have hid : c = "ID" := List.mem_singleton.mp hc
  exact hnot ⟨⟨"ID", "int", false⟩, List.mem_singleton_self _, by rw [hid]⟩

theorem columnId_right {key c c' : String} (h : columnId key c = columnId key c') : c = c' :=
  String.append_right_inj _ |>.mp h

theorem customerTable_ownIds :
    OwnIds dottedNames customerFile (.ofRelations asciiCase [customerRelation false]) "Customer" where
  reported := by decide
  live := by
    have htargets : customerFile.scanTargets dottedNames = [some "sales"] := by decide
    rintro schema hschema table c column ⟨⟨names, hnames, htable⟩, -⟩ hid
    rw [htargets, List.mem_singleton] at hschema
    subst hschema
    have hlisted : (Inspector.ofRelations asciiCase [customerRelation false]).tableNames (some "sales") =
        some ["Customer"] := by decide
    cases hnames.symm.trans hlisted
    have hname : table = "Customer" := List.mem_singleton.mp htable
    subst hname
    have hreported : tableId dottedNames customerFile ((some "sales").getD "", "Customer") = "Customer" := by
      decide
    rw [hreported] at hid
    exact ⟨by decide, by decide, columnId_right hid⟩
  listed := by
    rintro e (_ | ⟨_, ⟨⟩⟩) c - column hid
    exact ⟨rfl, columnId_right hid⟩

/-- The table itself, spelled as in the file: the two agree. -/
theorem customerTable_agrees :
    AgreeOn dottedNames customerFile (.ofRelations asciiCase [customerRelation false]) "warehouse"
      (readCatalogue asciiCase [customerRelation false]) {} none "Customer" customerTable := by
  refine (driftAgrees_iff customerFile_lookup (by decide) (customerRelation_found false)
    (List.cons_ne_nil _ _)).mpr ?_
  have htarget : scanTarget dottedNames customerFile "Customer" = some "sales" := by decide
  have hname : dottedNames.bareTableName "Customer" = "Customer" := by decide
  have hlisted : (Inspector.ofRelations asciiCase [customerRelation false]).tableNames (some "sales") =
      some ["Customer"] := by decide
  have hcolumns : (Inspector.ofRelations asciiCase [customerRelation false]).columns (some "sales")
      "Customer" = some [("ID", "int")] := by decide
  refine (readsAlike_iff_of_same customerTable_ownIds customerFile_lookup (by decide) ?_).mpr ⟨?_, ?_⟩
  · intro column
    rw [htarget, hname, Inspector.Reflects, hlisted, hcolumns]
    simp [customerRelation]
  · rintro ⟨c, hc, -, hnot⟩
    exact absurd hc hnot
  · rintro ⟨c, hc, hnot⟩
    exact absurd hc hnot

end LocalSqlAgent
