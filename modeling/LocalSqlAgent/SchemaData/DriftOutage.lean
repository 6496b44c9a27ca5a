import LocalSqlAgent.SchemaData.DriftAgreement
import LocalSqlAgent.SchemaData.DriftSources

/-! # Drift scans during an outage

What a scan keeps when reads raise.

* **`unreadTable`**: a read that the columns of a table depend on raises.
* **`scanEveryDatasource_eq_ok_iff`**: the scans are those of the sources whose engines can be built.
* **`agreeOnKeys_scanLive`**: under the keys of the tables that were read, a scan shows all there is.
* **`lookup_shownIds`**: so do all scans together, under the ids of these tables. -/

namespace LocalSqlAgent

/-! ## Who is asked for what -/

section Asked

variable (N : NameReader) (S : SchemaConfig) (D : Datasources) (W : String → LiveSource) (o : Outage)

/-- The tables scanned on a source: all of them when it is the only one. -/
def partOf (name : String) : SchemaConfig := if D.names.length = 1 then S else tablesIn S D name

/-- The source of a scan, unnamed when it is the only one. -/
def labelOf (name : String) : Option String := if D.names.length = 1 then none else some name

/-- The sources that are scanned. -/
def askedSources : List String :=
  D.names.filter fun name => decide (D.names.length = 1) || !(partOf S D name).tableColumns.isEmpty

/-- The scans of the sources whose engines can be built. -/
def scansOf : List SourceScan :=
  ((askedSources S D).filter fun name => !o.engine name).map fun name =>
    scanOf N W o (partOf S D name) name (labelOf D name)

/-- Every engine that must be built is, and every engine built connects. -/
structure Reached : Prop where
  engine : D.names.length = 1 → ∀ name ∈ D.names, o.engine name = false
  connect : ∀ name ∈ askedSources S D, o.engine name = false → o.connect name = false

/-- **A read raises that the columns of a table depend on**: its source's engine, its schema's listing, or,
when it is listed, its own. -/
def unreadTable (name : String) (schema : Option String) (table : String) : Bool :=
  o.engine name || o.tableNames name schema ||
    (decide (table ∈ (W name).tableNames schema) && o.columns name schema table)

/-- The copy of a table of the file in a source was not read. -/
def unreadCopy (name key : String) : Bool :=
  unreadTable W o name (scanTarget N S key) (N.bareTableName key)

/-- The report id of a live column. -/
def liveIdAt (name : String) (live : String × String) (column : String) : String :=
  reportId S D (labelOf D name) (tableId N S live) column ((keyBySchemaAndBare N S).lookup live)

/-- The report id of a column of the file. -/
def fileIdAt (name key column : String) : String := reportId S D (labelOf D name) key column (some key)

/-- A live table of a source that is a copy of another source's. -/
def isForeign (name : String) (live : String × String) : Bool :=
  ((keyBySchemaAndBare N S).lookup live).any fun k => decide (k ∉ (partOf S D name).tableColumns.map (·.1))

/-- The report ids of the tables that were not read. -/
inductive UnreadId (id : String) : Prop
  | live {name : String} {schema : Option String} {table column : String} (asked : name ∈ askedSources S D)
      (target : schema ∈ (partOf S D name).scanTargets N) (unread : unreadTable W o name schema table = true)
      (eq : id = liveIdAt N S D name (schema.getD "", table) column)
  | file {name : String} {e : String × TableDefinition} {column : String} (asked : name ∈ askedSources S D)
      (mem : e ∈ (partOf S D name).tableColumns) (unread : unreadCopy N S W o name e.1 = true)
      (eq : id = fileIdAt S D name e.1 column)

/-- A source that could be built has a column of the file with that id. -/
def FileHas (id : String) : Prop :=
  ∃ name ∈ askedSources S D, o.engine name = false ∧ ∃ e ∈ (partOf S D name).tableColumns,
    ∃ c ∈ e.2.columnNames, fileIdAt S D name e.1 c = id

/-- A source that could be built shows a column with that id. -/
def SourceShows (id : String) : Prop :=
  ∃ name ∈ askedSources S D, o.engine name = false ∧ ∃ schema ∈ (partOf S D name).scanTargets N,
    ∃ table c, ((W name).inspector o name).Reflects schema table c ∧
      isForeign N S D name (schema.getD "", table) = false ∧ liveIdAt N S D name (schema.getD "", table) c = id

/-- The outage hides a column the sources have. -/
def Hidden (id : String) : Prop := SourceShows N S D W .clear id ∧ ¬ SourceShows N S D W o id

/-- Every copy of a table was read. -/
def AllRead (key : String) : Prop :=
  ∀ name ∈ askedSources S D, (∃ e ∈ (partOf S D name).tableColumns, e.1 = key) → unreadCopy N S W o name key = false

/-- Some copy of a table is expected of a source that is not scanned. -/
def Unbuilt (key : String) : Prop :=
  1 < D.names.length ∧ ∃ name ∈ D.sourcesOf key, name ∉ D.names ∨ o.engine name = true

/-- A source a table lives in has none of its columns. -/
def Absent (e : String × TableDefinition) (name : String) : Prop :=
  name ∈ D.sourcesOf e.1 ∧ name ∈ D.names ∧
    ∀ c ∈ e.2.columnNames, ¬ ((W name).inspector .clear name).Reflects (scanTarget N S e.1) (N.bareTableName e.1) c

end Asked

/-! ## The scans -/

section Scans

variable {N : NameReader} {S : SchemaConfig} {D : Datasources} {W : String → LiveSource} {o : Outage}

theorem scanNames_eq_ok_iff {names : List String} {scans : List SourceScan} :
    scanNames N S D W o names = .ok scans ↔
      (∀ name ∈ names, (tablesIn S D name).tableColumns.isEmpty = false → o.engine name = false →
        o.connect name = false) ∧
      scans = ((names.filter fun name => !(tablesIn S D name).tableColumns.isEmpty).filter
        fun name => !o.engine name).map fun name => scanOf N W o (tablesIn S D name) name (some name) := by
  induction names generalizing scans with
  | nil =>
    rw [scanNames, Except.ok.injEq]
    exact ⟨fun h => ⟨fun _ hmem => absurd hmem List.not_mem_nil, h.symm⟩, fun h => h.2.symm⟩
  | cons name rest ih =>
    rw [scanNames, List.forall_mem_cons]
    cases hempty : (tablesIn S D name).tableColumns.isEmpty with
    | true => rw [if_pos rfl, List.filter_cons_of_neg (by simp [hempty]), ih]; simp
    | false =>
      rw [if_neg Bool.false_ne_true, List.filter_cons_of_pos (by simp [hempty])]
      cases hengine : o.engine name with
      | true => rw [if_pos rfl, List.filter_cons_of_neg (by simp [hengine]), ih]; simp
      | false =>
        rw [if_neg Bool.false_ne_true, List.filter_cons_of_pos (by simp [hengine]), List.map_cons, scanSource]
        cases hconnect : o.connect name with
        | true => simp [bind, Except.bind]
        | false =>
          rw [if_neg Bool.false_ne_true]
          cases hrest : scanNames N S D W o rest with
          | error e =>
            have hnot : ∀ scans, ¬ scanNames N S D W o rest = .ok scans := by simp [hrest]
            constructor
            · intro h
              cases h
            · rintro ⟨⟨-, hall⟩, -⟩
              exact absurd (ih.mpr ⟨hall, rfl⟩) (hnot _)
          | ok tail =>
            obtain ⟨hall, htail⟩ := ih.mp hrest
            simp only [bind, Except.bind, pure, Except.pure, Except.ok.injEq]
            constructor
            · rintro rfl
              exact ⟨⟨fun _ _ => trivial, hall⟩, by rw [htail]⟩
            · rintro ⟨-, rfl⟩
              rw [htail]

/-- **What is scanned**: the sources whose engines can be built, unless an exception leaves the scan. -/
theorem scanEveryDatasource_eq_ok_iff {scans : List SourceScan} :
    scanEveryDatasource N S D W o = .ok scans ↔ Reached S D o ∧ scans = scansOf N S D W o := by
  by_cases hone : D.names.length = 1
  · obtain ⟨name, hnames⟩ := List.length_eq_one_iff.mp hone
    have hasked : askedSources S D = [name] := by
      rw [askedSources, hnames]
      simp
    have hscans : o.engine name = false → scansOf N S D W o = [scanOf N W o S name none] := by
      intro hengine
      rw [scansOf, hasked, List.filter_cons_of_pos (by simp [hengine])]
      simp [partOf, labelOf, hone]
    rw [scanEveryDatasource, hnames]
    dsimp only
    cases hengine : o.engine name with
    | true =>
      rw [if_pos rfl]
      constructor
      · intro h
        cases h
      · rintro ⟨hreached, -⟩
        have hbuilt := hreached.engine hone name (by rw [hnames]; exact List.mem_singleton_self _)
        exact absurd (hengine.symm.trans hbuilt) (by simp)
    | false =>
      rw [if_neg Bool.false_ne_true, scanSource, hscans hengine]
      cases hconnect : o.connect name with
      | true =>
        rw [if_pos rfl]
        constructor
        · intro h
          cases h
        · rintro ⟨hreached, -⟩
          have hok := hreached.connect name (by rw [hasked]; exact List.mem_singleton_self _) hengine
          exact absurd (hconnect.symm.trans hok) (by simp)
      | false =>
        rw [if_neg Bool.false_ne_true]
        change Except.ok _ = Except.ok _ ↔ _
        rw [Except.ok.injEq, eq_comm]
        refine (and_iff_right ⟨fun _ name' hmem => ?_, fun name' hmem _ => ?_⟩).symm
        · rw [hnames] at hmem
          rw [List.mem_singleton.mp hmem, hengine]
        · rw [hasked] at hmem
          rw [List.mem_singleton.mp hmem, hconnect]
  · have hscan : scanEveryDatasource N S D W o = scanNames N S D W o D.names := by
      rw [scanEveryDatasource]
      split
      · rename_i name hnames
        exact absurd (by rw [hnames]; rfl) hone
      · rfl
    have hasked : askedSources S D = D.names.filter fun name => !(tablesIn S D name).tableColumns.isEmpty :=
      List.filter_congr fun name _ => by simp [partOf, hone]
    rw [hscan, scanNames_eq_ok_iff, scansOf, hasked]
    refine and_congr ⟨fun h => ⟨fun h1 => absurd h1 hone, fun name hmem hengine => ?_⟩, fun h name hmem htables hengine => ?_⟩ ?_
    · rw [hasked, List.mem_filter, Bool.not_eq_true'] at hmem
      exact h name hmem.1 hmem.2 hengine
    · refine h.connect name ?_ hengine
      rw [hasked, List.mem_filter, Bool.not_eq_true']
      exact ⟨hmem, htables⟩
    · simp only [partOf, labelOf, if_neg hone]

theorem checkDatasources_eq_ok_iff {persistBaseline : Bool} {baseline left : Option (OrderedDict String String)}
    {report : DatasourceDriftReport} :
    checkDatasources N S D W o persistBaseline baseline = .ok (report, left) ↔
      Reached S D o ∧ report = reportOf N S D W o (baseline.getD ∅) (scansOf N S D W o) ∧
        left = if persistBaseline then some (shownIds N S D (scansOf N S D W o)) else baseline := by
  unfold checkDatasources
  cases hscan : scanEveryDatasource N S D W o with
  | error e =>
    constructor
    · intro h
      cases h
    · rintro ⟨hreached, -⟩
      rw [scanEveryDatasource_eq_ok_iff.mpr ⟨hreached, rfl⟩] at hscan
      cases hscan
  | ok scans =>
    obtain ⟨hreached, rfl⟩ := scanEveryDatasource_eq_ok_iff.mp hscan
    simp only [bind, Except.bind, pure, Except.pure, Except.ok.injEq, Prod.mk.injEq]
    exact ⟨fun h => ⟨hreached, h.1.symm, h.2.symm⟩, fun h => ⟨h.2.1.symm, h.2.2.symm⟩⟩

theorem reached_clear : Reached S D .clear := ⟨fun _ _ _ => rfl, fun _ _ _ => rfl⟩

/-! ## Who has an id -/

theorem partOf_tableSchema {name key : String} {t : TableDefinition} (h : (key, t) ∈ (partOf S D name).tableColumns) :
    (partOf S D name).tableSchema N key = S.tableSchema N key := by
  unfold partOf at h ⊢
  split
  · rfl
  · rename_i hone
    rw [if_neg hone] at h
    obtain ⟨hlookup, -⟩ := SchemaConfig.mem_tableColumns.mp h
    have hentry : (⟨key, t⟩ : DictEntry String TableDefinition) ∈ S.tables.entries :=
      List.mem_of_mem_filter (AList.mem_lookup_iff.mp hlookup)
    rw [SchemaConfig.tableSchema, SchemaConfig.tableSchema, hlookup, AList.mem_lookup_iff.mpr hentry]

theorem mem_scansOf {scan : SourceScan} : scan ∈ scansOf N S D W o ↔ ∃ name ∈ askedSources S D,
    o.engine name = false ∧ scanOf N W o (partOf S D name) name (labelOf D name) = scan := by
  rw [scansOf, List.mem_map]
  simp only [List.mem_filter, Bool.not_eq_true', and_assoc]

/-- **The file's side.** -/
theorem mem_schemaIds {id : String} : id ∈ schemaIds S D (scansOf N S D W o) ↔ FileHas S D o id := by
  unfold schemaIds FileHas
  rw [List.mem_dedup, List.mem_flatMap]
  constructor
  · rintro ⟨scan, hscan, hid⟩
    obtain ⟨name, hname, hengine, rfl⟩ := mem_scansOf.mp hscan
    rw [scanOf, verifiableTables_eq, List.mem_flatMap] at hid
    obtain ⟨e, he, hid⟩ := hid
    obtain ⟨c, hc, rfl⟩ := List.mem_map.mp hid
    exact ⟨name, hname, hengine, e, he, c, hc, rfl⟩
  · rintro ⟨name, hname, hengine, e, he, c, hc, rfl⟩
    refine ⟨_, mem_scansOf.mpr ⟨name, hname, hengine, rfl⟩, ?_⟩
    rw [scanOf, verifiableTables_eq, List.mem_flatMap]
    exact ⟨e, he, List.mem_map_of_mem hc⟩

/-- What one scan shows, read with the inspector of its source. -/
theorem shownPairs_scanOf (name : String) :
    shownPairs N S D (scanOf N W o (partOf S D name) name (labelOf D name)) =
      (scanLive N (partOf S D name) ((W name).inspector o name)).entries.flatMap fun e =>
        if isForeign N S D name e.1 then [] else e.2.entries.map fun c => (liveIdAt N S D name e.1 c.1, c.2) := rfl

/-- What one scan shows under an id. -/
theorem mem_shownPairs {name id : String} :
    (∃ p ∈ shownPairs N S D (scanOf N W o (partOf S D name) name (labelOf D name)), id = p.1) ↔
      ∃ schema ∈ (partOf S D name).scanTargets N, ∃ table c,
        ((W name).inspector o name).Reflects schema table c ∧
        isForeign N S D name (schema.getD "", table) = false ∧
        liveIdAt N S D name (schema.getD "", table) c = id := by
  rw [shownPairs_scanOf]
  simp only [List.mem_flatMap]
  constructor
  · rintro ⟨p, ⟨e, he, hp⟩, rfl⟩
    split at hp
    · exact absurd hp List.not_mem_nil
    · rename_i hnot
      obtain ⟨c, hc, rfl⟩ := List.mem_map.mp hp
      have hshown : (scanLive N (partOf S D name) ((W name).inspector o name)).Shows e.1 c.1 :=
        ⟨e.2, AList.mem_lookup_iff.mpr he, AList.mem_keys.mpr (List.mem_keys_of_mem hc)⟩
      obtain ⟨schema, hschema, hkey, hreflects⟩ := shows_scanLive.mp hshown
      refine ⟨schema, hschema, e.1.2, c.1, hreflects, ?_⟩
      rw [← hkey]
      exact ⟨Bool.not_eq_true _ ▸ hnot, rfl⟩
  · rintro ⟨schema, hschema, table, column, hreflects, hforeign, rfl⟩
    have hshown : (scanLive N (partOf S D name) ((W name).inspector o name)).Shows (schema.getD "", table) column :=
      shows_scanLive.mpr ⟨schema, hschema, rfl, hreflects⟩
    obtain ⟨columns, hlookup, hmem⟩ := hshown
    obtain ⟨c, hc, rfl⟩ := List.mem_map.mp (AList.mem_keys.mp hmem)
    refine ⟨(liveIdAt N S D name (schema.getD "", table) c.1, c.2),
      ⟨⟨(schema.getD "", table), columns⟩, AList.mem_lookup_iff.mp hlookup, ?_⟩, rfl⟩
    rw [if_neg (Bool.eq_false_iff.mp hforeign)]
    exact List.mem_map.mpr ⟨c, hc, rfl⟩

/-- **The sources' side.** -/
theorem mem_shownIds {id : String} : id ∈ shownIds N S D (scansOf N S D W o) ↔ SourceShows N S D W o id := by
  unfold shownIds SourceShows
  rw [OrderedDict.mem_ofPairs]
  simp only [List.mem_flatMap]
  constructor
  · rintro ⟨p, ⟨scan, hscan, hp⟩, rfl⟩
    obtain ⟨name, hname, hengine, rfl⟩ := mem_scansOf.mp hscan
    exact ⟨name, hname, hengine, mem_shownPairs.mp ⟨p, hp, rfl⟩⟩
  · rintro ⟨name, hname, hengine, hshown⟩
    obtain ⟨p, hp, rfl⟩ := mem_shownPairs.mpr hshown
    exact ⟨p, ⟨_, mem_scansOf.mpr ⟨name, hname, hengine, rfl⟩, hp⟩, rfl⟩

/-! ## What an outage leaves of a scan -/

/-- Two scans show the same under the keys of a predicate, in the same order. -/
def AgreeOnKeys (p : String × String → Bool) (d d' : LiveTables) : Prop :=
  (d.entries.filter fun e => p e.1) = d'.entries.filter fun e => p e.1

/-- The schema of a live table's key. -/
def schemaOf (key : String × String) : Option String := if key.1 = "" then none else some key.1

theorem schemaOf_getD {schema : Option String} (h : schema ≠ some "") (table : String) :
    schemaOf (schema.getD "", table) = schema := by
  unfold schemaOf
  cases schema with
  | none => rfl
  | some s => exact if_neg fun hs => h (congrArg some hs)

variable {name : String} {p : String × String → Bool} {d d' : LiveTables} {schema : Option String}

theorem AgreeOnKeys.assign (h : AgreeOnKeys p d d') {key : String × String}
    (v : OrderedDict String String) : AgreeOnKeys p (d.assign key v) (d'.assign key v) := by
  unfold AgreeOnKeys at h ⊢
  change (OrderedDict.assignEntry key v d.entries).filter _ = (OrderedDict.assignEntry key v d'.entries).filter _
  rw [OrderedDict.filter_assignEntry p, OrderedDict.filter_assignEntry p, h]

theorem AgreeOnKeys.assign_right (h : AgreeOnKeys p d d') {key : String × String} (hkey : p key = false)
    (v : OrderedDict String String) : AgreeOnKeys p d (d'.assign key v) := by
  unfold AgreeOnKeys at h ⊢
  change _ = (OrderedDict.assignEntry key v d'.entries).filter _
  rw [OrderedDict.filter_assignEntry p, hkey, if_neg Bool.false_ne_true, h]

theorem AgreeOnKeys.lookup (h : AgreeOnKeys p d d') {key : String × String} (hkey : p key = true) :
    d.lookup key = d'.lookup key := by
  change d.entries.dlookup key = d'.entries.dlookup key
  rw [← OrderedDict.dlookup_filter hkey, h, OrderedDict.dlookup_filter hkey]

/-- One table: read alike, or under a key that is left out. -/
theorem AgreeOnKeys.readTable (h : AgreeOnKeys p d d') {table : String}
    (hp : p (schema.getD "", table) = !o.columns name schema table) :
    AgreeOnKeys p (readTable N ((W name).inspector o name) schema d table)
      (readTable N ((W name).inspector .clear name) schema d' table) := by
  have hclear : LocalSqlAgent.readTable N ((W name).inspector .clear name) schema d' table =
      d'.assign (schema.getD "", table) (((W name).columns schema table).foldl
        (fun d c => d.assign c.1 (N.normaliseType c.2)) ((d'.lookup (schema.getD "", table)).getD ∅)) := rfl
  rw [hclear]
  cases hfails : o.columns name schema table with
  | true =>
    have hskipped : LocalSqlAgent.readTable N ((W name).inspector o name) schema d table = d := by
      rw [LocalSqlAgent.readTable, inspector_columns, hfails]
      rfl
    rw [hskipped]
    exact h.assign_right (by rw [hp, hfails]; rfl) _
  | false =>
    have hread : LocalSqlAgent.readTable N ((W name).inspector o name) schema d table =
        d.assign (schema.getD "", table) (((W name).columns schema table).foldl
          (fun d c => d.assign c.1 (N.normaliseType c.2)) ((d.lookup (schema.getD "", table)).getD ∅)) := by
      rw [LocalSqlAgent.readTable, inspector_columns, hfails]
      rfl
    rw [hread, h.lookup (by rw [hp, hfails]; rfl)]
    exact h.assign _

/-- The tables of one schema, listed in both. -/
theorem AgreeOnKeys.readTables {tables : List String}
    (hp : ∀ table ∈ tables, p (schema.getD "", table) = !o.columns name schema table) (h : AgreeOnKeys p d d') :
    AgreeOnKeys p (tables.foldl (LocalSqlAgent.readTable N ((W name).inspector o name) schema) d)
      (tables.foldl (LocalSqlAgent.readTable N ((W name).inspector .clear name) schema) d') := by
  induction tables generalizing d d' with
  | nil => exact h
  | cons table rest ih =>
    exact ih (fun t ht => hp t (List.mem_cons_of_mem _ ht)) (h.readTable (hp table List.mem_cons_self))

/-- The tables of one schema, listed in one of them only. -/
theorem AgreeOnKeys.readTables_right {tables : List String}
    (hp : ∀ table ∈ tables, p (schema.getD "", table) = false) (h : AgreeOnKeys p d d') :
    AgreeOnKeys p d (tables.foldl (LocalSqlAgent.readTable N ((W name).inspector .clear name) schema) d') := by
  induction tables generalizing d' with
  | nil => exact h
  | cons table rest ih =>
    exact ih (fun t ht => hp t (List.mem_cons_of_mem _ ht)) (h.assign_right (hp table List.mem_cons_self) _)

/-- The keys of the tables that were read. -/
def wasRead (W : String → LiveSource) (o : Outage) (name : String) (key : String × String) : Bool :=
  !unreadTable W o name (schemaOf key) key.2

/-- One schema. -/
theorem AgreeOnKeys.readSchema (hengine : o.engine name = false) (hschema : schema ≠ some "")
    (h : AgreeOnKeys (wasRead W o name) d d') :
    AgreeOnKeys (wasRead W o name) (readSchema N ((W name).inspector o name) d schema)
      (readSchema N ((W name).inspector .clear name) d' schema) := by
  have hclear : LocalSqlAgent.readSchema N ((W name).inspector .clear name) d' schema =
      ((W name).tableNames schema).foldl
        (LocalSqlAgent.readTable N ((W name).inspector .clear name) schema) d' := rfl
  rw [hclear]
  cases hfails : o.tableNames name schema with
  | true =>
    have hskipped : LocalSqlAgent.readSchema N ((W name).inspector o name) d schema = d := by
      rw [LocalSqlAgent.readSchema, inspector_tableNames, hfails]
      rfl
    rw [hskipped]
    refine h.readTables_right fun table _ => ?_
    rw [wasRead, schemaOf_getD hschema, unreadTable, hfails, Bool.or_true, Bool.true_or]
    rfl
  | false =>
    have hlisted : LocalSqlAgent.readSchema N ((W name).inspector o name) d schema =
        ((W name).tableNames schema).foldl
          (LocalSqlAgent.readTable N ((W name).inspector o name) schema) d := by
      rw [LocalSqlAgent.readSchema, inspector_tableNames, hfails]
      rfl
    rw [hlisted]
    refine AgreeOnKeys.readTables (fun table htable => ?_) h
    rw [wasRead, schemaOf_getD hschema, unreadTable, hengine, hfails, decide_eq_true htable]
    rfl

theorem scanTargets_ne {schema : Option String} (h : schema ∈ S.scanTargets N) : schema ≠ some "" := by
  rintro rfl
  unfold SchemaConfig.scanTargets at h
  obtain hmem | hnone := List.mem_append.mp h
  · obtain ⟨s, hs, heq⟩ := List.mem_map.mp hmem
    exact (mem_schemasScanned.mp hs).1 (Option.some_inj.mp heq)
  · split at hnone
    · exact absurd (List.mem_singleton.mp hnone) (by simp)
    · exact absurd hnone List.not_mem_nil

/-- **What an outage leaves of a scan**: under the keys of the tables that were read, all there is. -/
theorem agreeOnKeys_scanLive (hengine : o.engine name = false) :
    AgreeOnKeys (wasRead W o name) (scanLive N S ((W name).inspector o name))
      (scanLive N S ((W name).inspector .clear name)) := by
  have hfold : ∀ (targets : List (Option String)) (d d' : LiveTables), (∀ schema ∈ targets, schema ≠ some "") →
      AgreeOnKeys (wasRead W o name) d d' →
      AgreeOnKeys (wasRead W o name) (targets.foldl (readSchema N ((W name).inspector o name)) d)
        (targets.foldl (readSchema N ((W name).inspector .clear name)) d') := by
    intro targets
    induction targets with
    | nil => exact fun _ _ _ h => h
    | cons schema rest ih =>
      exact fun _ _ htargets h => ih _ _ (fun s hs => htargets s (List.mem_cons_of_mem _ hs))
        (h.readSchema hengine (htargets schema List.mem_cons_self))
  exact hfold _ ∅ ∅ (fun _ hschema => scanTargets_ne hschema) rfl

/-! ## The findings about other tables -/

/-- What passes a filter, when some parts are left out and pass it nowhere. -/
theorem filter_flatMap_congr {α β : Type} {l : List α} {keep : α → Bool} {f g : α → List β} {q : β → Bool}
    (hkept : ∀ a ∈ l, keep a = true → (f a).filter q = (g a).filter q)
    (hleft : ∀ a ∈ l, keep a = false → (g a).filter q = []) :
    ((l.filter keep).flatMap f).filter q = (l.flatMap g).filter q := by
  induction l with
  | nil => rfl
  | cons a rest ih =>
    have ih' := ih (fun b hb => hkept b (List.mem_cons_of_mem _ hb)) fun b hb => hleft b (List.mem_cons_of_mem _ hb)
    rw [List.flatMap_cons, List.filter_append, ← ih']
    cases hkeep : keep a with
    | true =>
      rw [List.filter_cons_of_pos hkeep, List.flatMap_cons, List.filter_append, hkept a List.mem_cons_self hkeep]
    | false =>
      rw [List.filter_cons_of_neg (by simp [hkeep]), hleft a List.mem_cons_self hkeep, List.nil_append]

variable {id : String}

/-- The columns a scan shows, by the key they are shown under. -/
def shownUnder (N : NameReader) (S : SchemaConfig) (D : Datasources) (name : String)
    (e : DictEntry (String × String) (OrderedDict String String)) : List (String × String) :=
  if isForeign N S D name e.1 then [] else e.2.entries.map fun c => (liveIdAt N S D name e.1 c.1, c.2)

/-- A table that was not read shows nothing under another id. -/
theorem filter_shownUnder (hid : ¬ UnreadId N S D W o id) (hname : name ∈ askedSources S D) {o' : Outage}
    {e : DictEntry (String × String) (OrderedDict String String)}
    (he : e ∈ (scanLive N (partOf S D name) ((W name).inspector o' name)).entries)
    (hunread : wasRead W o name e.1 = false) :
    (shownUnder N S D name e).filter (fun p => decide (p.1 = id)) = [] := by
  refine List.filter_eq_nil_iff.mpr fun p hp => ?_
  rw [decide_eq_true_eq]
  rintro rfl
  unfold shownUnder at hp
  split at hp
  · exact absurd hp List.not_mem_nil
  · obtain ⟨c, hc, rfl⟩ := List.mem_map.mp hp
    have hshown : (scanLive N (partOf S D name) ((W name).inspector o' name)).Shows e.1 c.1 :=
      ⟨e.2, AList.mem_lookup_iff.mpr he, AList.mem_keys.mpr (List.mem_keys_of_mem hc)⟩
    obtain ⟨schema, hschema, hkey, -⟩ := shows_scanLive.mp hshown
    have hpair : e.1 = (schema.getD "", e.1.2) := Prod.ext hkey rfl
    have htable : unreadTable W o name schema e.1.2 = true := by
      rw [wasRead, hpair, schemaOf_getD (scanTargets_ne hschema), Bool.not_eq_false'] at hunread
      exact hunread
    exact hid (.live hname hschema htable (by rw [← hpair]))

/-- **A scan shows the same** under the id of another table, with and without the outage. -/
theorem filter_shownPairs (hid : ¬ UnreadId N S D W o id) (hname : name ∈ askedSources S D)
    (hengine : o.engine name = false) :
    (shownPairs N S D (scanOf N W o (partOf S D name) name (labelOf D name))).filter
        (fun p => decide (p.1 = id)) =
      (shownPairs N S D (scanOf N W .clear (partOf S D name) name (labelOf D name))).filter
        fun p => decide (p.1 = id) := by
  have hread : ∀ o' : Outage, (shownPairs N S D (scanOf N W o' (partOf S D name) name (labelOf D name))).filter
        (fun p => decide (p.1 = id)) =
      (((scanLive N (partOf S D name) ((W name).inspector o' name)).entries.filter
        fun e => wasRead W o name e.1).flatMap (shownUnder N S D name)).filter fun p => decide (p.1 = id) :=
    fun o' => (filter_flatMap_congr (fun _ _ _ => rfl) fun e he => filter_shownUnder hid hname he).symm
  rw [hread, hread, agreeOnKeys_scanLive hengine]

/-- **The sources show the same** under the id of another table. -/
theorem lookup_shownIds (hid : ¬ UnreadId N S D W o id) :
    (shownIds N S D (scansOf N S D W o)).lookup id = (shownIds N S D (scansOf N S D W .clear)).lookup id := by
  unfold shownIds
  rw [OrderedDict.lookup_ofPairs_filter, OrderedDict.lookup_ofPairs_filter (l := (scansOf N S D W .clear).flatMap _),
    scansOf, scansOf, List.flatMap_map, List.flatMap_map]
  have hall : (askedSources S D).filter (fun name => !Outage.clear.engine name) = askedSources S D :=
    List.filter_eq_self.mpr fun _ _ => rfl
  rw [hall, filter_flatMap_congr]
  · exact fun name hname hengine => filter_shownPairs hid hname (Bool.not_eq_true' _ ▸ hengine)
  · intro name hname hengine
    rw [Bool.not_eq_false'] at hengine
    -- nothing of a source without an engine was read
    refine List.filter_eq_nil_iff.mpr fun p hp => ?_
    obtain ⟨e, he, hmem⟩ := List.mem_flatMap.mp hp
    have hunread : wasRead W o name e.1 = false := by
      rw [wasRead, unreadTable, hengine, Bool.true_or, Bool.true_or]
      rfl
    exact List.filter_eq_nil_iff.mp (filter_shownUnder hid hname he hunread) p hmem

/-- The file has the same under it. -/
theorem fileHas_iff (hid : ¬ UnreadId N S D W o id) : FileHas S D o id ↔ FileHas S D .clear id := by
  constructor
  · rintro ⟨name, hname, -, hmem⟩
    exact ⟨name, hname, rfl, hmem⟩
  · rintro ⟨name, hname, -, e, he, c, hc, rfl⟩
    refine ⟨name, hname, Bool.eq_false_iff.mpr fun hengine => hid (.file hname he ?_ rfl), e, he, c, hc, rfl⟩
    rw [unreadCopy, unreadTable, hengine, Bool.true_or, Bool.true_or]

theorem mem_typeChanges {ids : List String} {live previous : OrderedDict String String} {change : TypeChanged} :
    change ∈ typeChanges ids live previous ↔ change.column ∈ ids ∧
      previous.lookup change.column = some change.previousType ∧
      live.lookup change.column = some change.currentType ∧ change.previousType ≠ change.currentType := by
  unfold typeChanges
  rw [List.mem_filterMap]
  simp only [sortedStrings, List.mem_insertionSort, List.mem_filter, decide_eq_true_eq]
  constructor
  · rintro ⟨id, ⟨hid, -⟩, hchange⟩
    split at hchange
    · rename_i old new hold hnew
      split at hchange
      · rename_i hne
        cases hchange
        exact ⟨hid, hold, hnew, hne⟩
      · cases hchange
    · cases hchange
  · rintro ⟨hid, hold, hnew, hne⟩
    refine ⟨change.column, ⟨hid, AList.lookup_isSome.mp (by rw [hnew]; rfl)⟩, ?_⟩
    rw [hold, hnew]
    exact if_pos hne

end Scans

end LocalSqlAgent
