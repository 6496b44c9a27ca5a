import LocalSqlAgent.SchemaData.DriftOutage

/-! # Drift during an outage

What reads that raise do to the drift report, and to the types it leaves for the next run.

* **`FailuresContained`**: a failed read is reported as such and hides nothing else, now or later.
* **`OutageHarmless`**: which outages leave it so.
* **`failuresContained_iff`**: exactly those. -/

namespace LocalSqlAgent

/-! ## What a failed read may do -/

section Contained

variable (N : NameReader) (S : SchemaConfig) (D : Datasources) (W : String → LiveSource) (o : Outage)
  (persistBaseline : Bool) (baseline : Option (OrderedDict String String))

/-- What a report and the types it leaves say of the reads that raised. -/
structure ContainedBy (report : DatasourceDriftReport) (left : Option (OrderedDict String String)) : Prop where
  /-- A table with a copy that was not read is unverifiable, and none of the copy's columns is missing. -/
  unread : ∀ name ∈ askedSources S D, ∀ e ∈ (partOf S D name).tableColumns, unreadCopy N S W o name e.1 = true →
    e.1 ∈ report.unverifiableTables ∧ ∀ c ∈ e.2.columnNames, fileIdAt S D name e.1 c ∉ report.schemaOnly
  /-- The column findings of the other tables are those of a run without failures. -/
  columns : ∀ report₀ left₀, checkDatasources N S D W .clear persistBaseline baseline = .ok (report₀, left₀) →
    ∀ id, ¬ UnreadId N S D W o id → (id ∈ report.warehouseOnly ↔ id ∈ report₀.warehouseOnly) ∧
      (id ∈ report.schemaOnly ↔ id ∈ report₀.schemaOnly) ∧
      ∀ change, change.column = id → (change ∈ report.typeChanged ↔ change ∈ report₀.typeChanged)
  /-- So are the findings about the tables themselves. -/
  tables : ∀ report₀ left₀, checkDatasources N S D W .clear persistBaseline baseline = .ok (report₀, left₀) →
    ∀ e ∈ S.tableColumns, AllRead N S D W o e.1 →
      (e.1 ∈ report.unverifiableTables ↔ e.1 ∈ report₀.unverifiableTables) ∧
      ∀ m, m.table = e.1 → (m ∈ report.misplacedTables ↔ m ∈ report₀.misplacedTables)
  /-- The types of the columns that could not be read are kept. -/
  kept : ∀ id, Hidden N S D W o id → (left.getD ∅).lookup id = (baseline.getD ∅).lookup id
  /-- So that the first complete check afterwards reports what the types from before the outage report. -/
  later : ∀ W' persist report₁ left₁ report₂ left₂,
    checkDatasources N S D W' .clear persist left = .ok (report₁, left₁) →
    checkDatasources N S D W' .clear persist baseline = .ok (report₂, left₂) →
    ∀ id, Hidden N S D W o id → ∀ change, change.column = id →
      (change ∈ report₁.typeChanged ↔ change ∈ report₂.typeChanged)

/-- **A failed read is never reported as drift.** -/
def FailuresContained : Prop :=
  ∃ report left, checkDatasources N S D W o persistBaseline baseline = .ok (report, left) ∧
    ContainedBy N S D W o persistBaseline baseline report left

/-- **The outages that do no harm.** -/
structure OutageHarmless : Prop where
  /-- No exception leaves the check. -/
  reached : Reached S D o
  /-- A copy that was not read makes its table unverifiable, and its columns are taken for missing in no
  other's place. -/
  copies : ∀ name ∈ askedSources S D, ∀ e ∈ (partOf S D name).tableColumns, unreadCopy N S W o name e.1 = true →
    Unbuilt D o e.1 ∧ ∀ c ∈ e.2.columnNames, FileHas S D o (fileIdAt S D name e.1 c) →
      SourceShows N S D W o (fileIdAt S D name e.1 c)
  /-- No source whose catalogue cannot be read has a table that is missing where it belongs. -/
  hints : 1 < D.names.length → ∀ e ∈ S.tableColumns, AllRead N S D W o e.1 →
    (∃ name, Absent N S D W e name) → ∀ name ∈ D.names, name ∉ D.sourcesOf e.1 → o.catalogue name = true →
      N.tableLocation e.1 (S.tableSchema N e.1) (W name).defaultSchema ∉ (W name).catalogue
  /-- No column that is hidden has a stored type to lose. -/
  kept : persistBaseline = true → ∀ id, Hidden N S D W o id → (baseline.getD ∅).lookup id = none

end Contained

/-! ## The findings about columns -/

section Columns

variable {N : NameReader} {S : SchemaConfig} {D : Datasources} {W : String → LiveSource} {o : Outage}
  {previous : OrderedDict String String} {id : String}

theorem mem_warehouseOnly_report :
    id ∈ (reportOf N S D W o previous (scansOf N S D W o)).warehouseOnly ↔
      SourceShows N S D W o id ∧ ¬ FileHas S D o id := by
  show id ∈ sortedStrings _ ↔ _
  rw [sortedStrings, List.mem_insertionSort, List.mem_filter, decide_eq_true_eq, ← AList.mem_keys, mem_shownIds,
    mem_schemaIds]

theorem mem_schemaOnly_report :
    id ∈ (reportOf N S D W o previous (scansOf N S D W o)).schemaOnly ↔
      FileHas S D o id ∧ ¬ SourceShows N S D W o id := by
  show id ∈ sortedStrings _ ↔ _
  rw [sortedStrings, List.mem_insertionSort, List.mem_filter, decide_eq_true_eq, ← AList.mem_keys, mem_shownIds,
    mem_schemaIds]

theorem mem_typeChanged_report {change : TypeChanged} :
    change ∈ (reportOf N S D W o previous (scansOf N S D W o)).typeChanged ↔
      FileHas S D o change.column ∧ previous.lookup change.column = some change.previousType ∧
        (shownIds N S D (scansOf N S D W o)).lookup change.column = some change.currentType ∧
        change.previousType ≠ change.currentType := by
  show change ∈ typeChanges _ _ _ ↔ _
  rw [mem_typeChanges, mem_schemaIds]

/-- The sources show the column of another table with and without the outage. -/
theorem sourceShows_iff (hid : ¬ UnreadId N S D W o id) :
    SourceShows N S D W o id ↔ SourceShows N S D W .clear id := by
  rw [← mem_shownIds, ← mem_shownIds, ← AList.lookup_isSome, lookup_shownIds hid, AList.lookup_isSome]

/-- **The column findings of the other tables** are those of a run without failures. -/
theorem columns_contained (hid : ¬ UnreadId N S D W o id) :
    let report := reportOf N S D W o previous (scansOf N S D W o)
    let report₀ := reportOf N S D W .clear previous (scansOf N S D W .clear)
    (id ∈ report.warehouseOnly ↔ id ∈ report₀.warehouseOnly) ∧
      (id ∈ report.schemaOnly ↔ id ∈ report₀.schemaOnly) ∧
      ∀ change, change.column = id → (change ∈ report.typeChanged ↔ change ∈ report₀.typeChanged) := by
  have hfile := fileHas_iff hid
  have hshown := sourceShows_iff hid
  refine ⟨?_, ?_, ?_⟩
  · rw [mem_warehouseOnly_report, mem_warehouseOnly_report, hfile, hshown]
  · rw [mem_schemaOnly_report, mem_schemaOnly_report, hfile, hshown]
  · rintro change rfl
    rw [mem_typeChanged_report, mem_typeChanged_report, hfile, lookup_shownIds hid]

end Columns

/-! ## The findings about tables -/

section Tables

variable {N : NameReader} {S : SchemaConfig} {D : Datasources} {W : String → LiveSource} {o : Outage}
  {name : String} {e : String × TableDefinition}

theorem mem_tablesIn : e ∈ (tablesIn S D name).tableColumns ↔ e ∈ S.tableColumns ∧ name ∈ D.sourcesOf e.1 := by
  unfold tablesIn SchemaConfig.only SchemaConfig.tableColumns
  simp only [List.mem_filterMap, List.mem_filter, decide_eq_true_eq]
  constructor
  · rintro ⟨entry, ⟨hentry, hin⟩, hsome⟩
    refine ⟨⟨entry, hentry, hsome⟩, ?_⟩
    split at hsome
    · cases hsome
    · cases hsome
      exact hin
  · rintro ⟨⟨entry, hentry, hsome⟩, hin⟩
    refine ⟨entry, ⟨hentry, ?_⟩, hsome⟩
    split at hsome
    · cases hsome
    · cases hsome
      exact hin

theorem mem_of_mem_partOf (h : e ∈ (partOf S D name).tableColumns) : e ∈ S.tableColumns := by
  unfold partOf at h
  split at h
  · exact h
  · exact (mem_tablesIn.mp h).1

theorem names_ne_one (hseveral : 1 < D.names.length) : D.names.length ≠ 1 := by
  omega

theorem one_of_not_several (hseveral : ¬ 1 < D.names.length) : D.names.length = 1 := by
  have hpos : 0 < D.names.length := List.length_pos_of_ne_nil (List.cons_ne_nil _ _)
  omega

theorem mem_partOf_several (hseveral : 1 < D.names.length) :
    e ∈ (partOf S D name).tableColumns ↔ e ∈ S.tableColumns ∧ name ∈ D.sourcesOf e.1 := by
  rw [partOf, if_neg (names_ne_one hseveral), mem_tablesIn]

/-- A configured source is asked for the tables that live in it. -/
theorem mem_askedSources (hname : name ∈ D.names) (he : e ∈ (partOf S D name).tableColumns) :
    name ∈ askedSources S D := by
  refine List.mem_filter.mpr ⟨hname, ?_⟩
  rw [Bool.or_eq_true, Bool.not_eq_true']
  exact Or.inr (List.isEmpty_eq_false_iff.mpr (List.ne_nil_of_mem he))

theorem mem_names_of_asked (h : name ∈ askedSources S D) : name ∈ D.names := List.mem_of_mem_filter h

theorem isVerified_scansOf {label : Option String} {key : String} :
    isVerified (scansOf N S D W o) label key = true ↔ ∃ name ∈ askedSources S D, o.engine name = false ∧
      labelOf D name = label ∧ ∃ e ∈ (partOf S D name).tableColumns, e.1 = key := by
  unfold isVerified
  rw [List.any_eq_true]
  constructor
  · rintro ⟨scan, hscan, hver⟩
    obtain ⟨name, hname, hengine, rfl⟩ := mem_scansOf.mp hscan
    rw [Bool.and_eq_true, decide_eq_true_eq, List.any_eq_true] at hver
    obtain ⟨hlabel, e, he, hkey⟩ := hver
    rw [scanOf, verifiableTables_eq] at he
    exact ⟨name, hname, hengine, hlabel, e, he, of_decide_eq_true hkey⟩
  · rintro ⟨name, hname, hengine, hlabel, e, he, hkey⟩
    refine ⟨_, mem_scansOf.mpr ⟨name, hname, hengine, rfl⟩, ?_⟩
    rw [Bool.and_eq_true, decide_eq_true_eq, List.any_eq_true]
    refine ⟨hlabel, e, ?_, decide_eq_true hkey⟩
    rw [scanOf, verifiableTables_eq]
    exact he

/-- In one of several sources a table is verified when the source's engine can be built. -/
theorem isVerified_several (hseveral : 1 < D.names.length) (he : e ∈ S.tableColumns)
    (hin : name ∈ D.sourcesOf e.1) :
    isVerified (scansOf N S D W o) (some name) e.1 = true ↔ name ∈ D.names ∧ o.engine name = false := by
  rw [isVerified_scansOf]
  constructor
  · rintro ⟨name', hname, hengine, hlabel, -⟩
    rw [labelOf, if_neg (names_ne_one hseveral), Option.some.injEq] at hlabel
    subst hlabel
    exact ⟨mem_names_of_asked hname, hengine⟩
  · rintro ⟨hname, hengine⟩
    have hpart : e ∈ (partOf S D name).tableColumns := (mem_partOf_several hseveral).mpr ⟨he, hin⟩
    exact ⟨name, mem_askedSources hname hpart, hengine, if_neg (names_ne_one hseveral), e, hpart, rfl⟩

/-- **Who is unverifiable**: the tables of a source whose engine could not be built, when there are
several. -/
theorem mem_unverifiable (hreached : Reached S D o) (he : e ∈ S.tableColumns) :
    e.1 ∈ unverifiable S D (scansOf N S D W o) ↔ Unbuilt D o e.1 := by
  have hlisted : e.1 ∈ S.tableColumns.map (·.1) := List.mem_map_of_mem he
  unfold unverifiable Unbuilt
  rw [sortedStrings, List.mem_insertionSort, List.mem_filter, and_iff_right hlisted]
  by_cases hseveral : 1 < D.names.length
  · rw [if_pos hseveral, and_iff_right hseveral, List.any_eq_true]
    refine exists_congr fun name => and_congr_right fun hin => ?_
    rw [Bool.not_eq_true', ← Bool.not_eq_true, isVerified_several hseveral he hin, not_and_or, Bool.not_eq_false]
  · have hone := one_of_not_several hseveral
    rw [if_neg hseveral, Bool.not_eq_true', ← Bool.not_eq_true, isVerified_scansOf]
    refine iff_of_false (not_not.mpr ?_) fun h => hseveral h.1
    obtain ⟨name, hnames⟩ := List.length_eq_one_iff.mp hone
    have hname : name ∈ D.names := by
      rw [hnames]
      exact List.mem_singleton_self _
    have hpart : e ∈ (partOf S D name).tableColumns := by
      rw [partOf, if_pos hone]
      exact he
    exact ⟨name, mem_askedSources hname hpart, hreached.engine hone name hname, if_pos hone, e, hpart, rfl⟩

/-! ## The hints -/

theorem scanIn_scansOf (hseveral : 1 < D.names.length) (hname : name ∈ askedSources S D)
    (hengine : o.engine name = false) :
    scanIn (scansOf N S D W o) name = some (scanOf N W o (partOf S D name) name (some name)) := by
  have hlabel : ∀ s, labelOf D s = some s := fun s => if_neg (names_ne_one hseveral)
  have hscan : scanOf N W o (partOf S D name) name (some name) ∈ (scansOf N S D W o).reverse := by
    rw [List.mem_reverse, mem_scansOf]
    exact ⟨name, hname, hengine, by rw [hlabel]⟩
  unfold scanIn
  cases hfound : (scansOf N S D W o).reverse.find? fun scan => decide (scan.source = some name) with
  | none => exact absurd (decide_eq_true rfl) (List.find?_eq_none.mp hfound _ hscan)
  | some scan =>
    -- all scans of one source are the same
    obtain ⟨name', -, -, rfl⟩ := mem_scansOf.mp (List.mem_reverse.mp (List.mem_of_find?_eq_some hfound))
    have hsource := List.find?_some hfound
    rw [decide_eq_true_eq] at hsource
    change labelOf D name' = some name at hsource
    rw [hlabel, Option.some.injEq] at hsource
    rw [hsource, hlabel]

theorem scanIn_unknown (hseveral : 1 < D.names.length) (hname : name ∉ D.names) :
    scanIn (scansOf N S D W o) name = none := by
  refine List.find?_eq_none.mpr fun scan hscan hsource => hname ?_
  obtain ⟨name', hasked, -, rfl⟩ := mem_scansOf.mp (List.mem_reverse.mp hscan)
  have hlabel : labelOf D name' = some name := of_decide_eq_true hsource
  rw [labelOf, if_neg (names_ne_one hseveral), Option.some.injEq] at hlabel
  exact hlabel ▸ mem_names_of_asked hasked

/-- What the scan of a source that was reached shows of a table that lives in it. -/
theorem showsSome_scansOf (hseveral : 1 < D.names.length) (hname : name ∈ D.names)
    (hengine : o.engine name = false) (hpart : e ∈ (partOf S D name).tableColumns) :
    showsSome N S (scansOf N S D W o) e.1 e.2 name = some (e.2.columnNames.any fun c => decide (c ∈
      (((scanLive N (partOf S D name) ((W name).inspector o name)).lookup
        (S.tableSchema N e.1, N.bareTableName e.1)).getD ∅).keys)) := by
  have hverified : (verifiableTables N (partOf S D name)).any (fun e' => decide (e'.1 = e.1)) = true := by
    rw [verifiableTables_eq]
    exact List.any_eq_true.mpr ⟨e, hpart, decide_eq_true rfl⟩
  unfold showsSome
  rw [scanIn_scansOf hseveral (mem_askedSources hname hpart) hengine]
  exact if_pos hverified

theorem unread_of_engine {key : String} (h : o.engine name = true) : unreadCopy N S W o name key = true := by
  rw [unreadCopy, unreadTable, h, Bool.true_or, Bool.true_or]

/-- **A table whose copies were all read** is shown as without the outage. -/
theorem showsSome_eq_clear (hseveral : 1 < D.names.length) (he : e ∈ S.tableColumns)
    (hread : AllRead N S D W o e.1) (hin : name ∈ D.sourcesOf e.1) :
    showsSome N S (scansOf N S D W o) e.1 e.2 name = showsSome N S (scansOf N S D W .clear) e.1 e.2 name := by
  by_cases hname : name ∈ D.names
  · have hpart : e ∈ (partOf S D name).tableColumns := (mem_partOf_several hseveral).mpr ⟨he, hin⟩
    have hcopy : unreadCopy N S W o name e.1 = false := hread name (mem_askedSources hname hpart) ⟨e, hpart, rfl⟩
    have hengine : o.engine name = false := by
      rw [← Bool.not_eq_true]
      intro hfails
      rw [unread_of_engine hfails] at hcopy
      cases hcopy
    have hkey : wasRead W o name (S.tableSchema N e.1, N.bareTableName e.1) = true :=
      congrArg (! ·) hcopy
    rw [showsSome_scansOf hseveral hname hengine hpart, showsSome_scansOf hseveral hname rfl hpart,
      (agreeOnKeys_scanLive hengine).lookup hkey]
  · unfold showsSome
    rw [scanIn_unknown hseveral hname, scanIn_unknown hseveral hname]

/-- A source shows a column of a table of its own when reflection lists the table with it. -/
theorem mem_shownTable (hpart : e ∈ (partOf S D name).tableColumns) {c : String} :
    c ∈ (((scanLive N (partOf S D name) ((W name).inspector o name)).lookup
        (S.tableSchema N e.1, N.bareTableName e.1)).getD ∅).keys ↔
      ((W name).inspector o name).Reflects (scanTarget N S e.1) (N.bareTableName e.1) c := by
  have hshows : c ∈ (((scanLive N (partOf S D name) ((W name).inspector o name)).lookup
        (S.tableSchema N e.1, N.bareTableName e.1)).getD ∅).keys ↔
      (scanLive N (partOf S D name) ((W name).inspector o name)).Shows
        (S.tableSchema N e.1, N.bareTableName e.1) c := by
    unfold LiveTables.Shows
    rw [← AList.mem_keys]
    cases (scanLive N (partOf S D name) ((W name).inspector o name)).lookup
      (S.tableSchema N e.1, N.bareTableName e.1) <;> simp
  have hschema : (partOf S D name).tableSchema N e.1 = S.tableSchema N e.1 := partOf_tableSchema hpart
  rw [hshows, shows_scanLive]
  constructor
  · rintro ⟨schema, hschema, hkey, hreflects⟩
    have htarget : schema = scanTarget N S e.1 := by
      rw [← schemaOf_getD (scanTargets_ne hschema) (N.bareTableName e.1), ← hkey]
      rfl
    exact htarget ▸ hreflects
  · intro hreflects
    obtain ⟨hlookup, hqueryable⟩ := SchemaConfig.mem_tableColumns.mp hpart
    have htarget : scanTarget N (partOf S D name) e.1 = scanTarget N S e.1 := by
      rw [scanTarget, hschema, scanTarget]
    refine ⟨_, htarget ▸ scanTarget_mem hlookup hqueryable, ?_, hreflects⟩
    exact scanTarget_getD.symm

/-- **A table is missing from a source** when the complete scan verifies it and shows no column of it. -/
theorem showsSome_clear_iff (hseveral : 1 < D.names.length) (he : e ∈ S.tableColumns) :
    name ∈ D.sourcesOf e.1 ∧ showsSome N S (scansOf N S D W .clear) e.1 e.2 name = some false ↔
      Absent N S D W e name := by
  unfold Absent
  refine and_congr_right fun hin => ?_
  by_cases hname : name ∈ D.names
  · have hpart : e ∈ (partOf S D name).tableColumns := (mem_partOf_several hseveral).mpr ⟨he, hin⟩
    rw [showsSome_scansOf hseveral hname rfl hpart, and_iff_right hname, Option.some.injEq, List.any_eq_false]
    refine forall₂_congr fun c _ => ?_
    rw [decide_eq_true_eq, mem_shownTable hpart]
  · unfold showsSome
    rw [scanIn_unknown hseveral hname]
    exact iff_of_false (Option.some_ne_none _ ·.symm) fun h => hname h.1

/-- The sources a misplaced table is in. -/
def sourcesFound (N : NameReader) (S : SchemaConfig) (D : Datasources) (W : String → LiveSource) (o : Outage)
    (scans : List SourceScan) (e : String × TableDefinition) : List String :=
  D.names.filter fun s =>
    decide (s ∈ (D.sourcesOf e.1).filter fun s => showsSome N S scans e.1 e.2 s = some true) ||
      (decide (s ∉ D.sourcesOf e.1) && catalogueHas N S W o e.1 s)

/-- The hint about a table, from the sources it is missing from and those it is in. -/
def hintOf (D : Datasources) (key : String) (absent found : List String) : Option MisplacedTable :=
  let missingFrom := D.names.filter (· ∈ absent)
  let value := if found.length = 1 then found.headD "" else "[" ++ joinStrings ", " found ++ "]"
  if absent = [] then none
  else if found = [] then none
  else some
    { table := key
      assigned := D.sourcesOf key
      missingFrom := missingFrom
      foundIn := found
      suggestedDatasource := if found.length = 1 then .inl (found.headD "") else .inr found
      hint := key ++ ": not in " ++ joinStrings ", " missingFrom ++ ", found in " ++ joinStrings ", " found ++
        " — set datasource: " ++ value }

theorem misplacedHint_eq {scans : List SourceScan} :
    misplacedHint N S D W o scans e.1 e.2 = hintOf D e.1
      ((D.sourcesOf e.1).filter fun s => showsSome N S scans e.1 e.2 s = some false)
      (sourcesFound N S D W o scans e) := rfl

/-- Two hints about one missing table are the same only if it is in the same sources. -/
theorem hintOf_eq_iff {key : String} {absent found found' : List String} :
    hintOf D key absent found = hintOf D key absent found' ↔ absent = [] ∨ found = found' := by
  by_cases habsent : absent = []
  · rw [hintOf, hintOf, if_pos habsent, if_pos habsent]
    exact iff_of_true rfl (Or.inl habsent)
  · rw [or_iff_right habsent]
    refine ⟨fun h => ?_, fun h => by rw [h]⟩
    have hfoundIn : ∀ found, ((hintOf D key absent found).map (·.foundIn)).getD [] = found := by
      intro found
      rw [hintOf, if_neg habsent]
      split
      · rename_i hnone
        exact hnone.symm
      · rfl
    rw [← hfoundIn found, h, hfoundIn]

theorem hintOf_table {key : String} {absent found : List String} {m : MisplacedTable}
    (h : hintOf D key absent found = some m) : m.table = key := by
  unfold hintOf at h
  dsimp only at h
  split at h
  · cases h
  · split at h
    · cases h
    · cases h
      rfl

/-- The hints about a table are the one about it. -/
theorem mem_findMisplacedTables {scans : List SourceScan} (he : e ∈ S.tableColumns) {m : MisplacedTable}
    (hm : m.table = e.1) :
    m ∈ findMisplacedTables N S D W o scans ↔ misplacedHint N S D W o scans e.1 e.2 = some m := by
  unfold findMisplacedTables
  rw [List.mem_filterMap]
  simp only [sortedStrings, List.mem_insertionSort, Option.bind_eq_some_iff]
  constructor
  · rintro ⟨key, -, table, hlookup, hhint⟩
    have hkey : key = e.1 := (hintOf_table (misplacedHint_eq (e := (key, table)) ▸ hhint)).symm.trans hm
    subst hkey
    have htable : table = e.2 := Option.some.inj (hlookup.symm.trans (SchemaConfig.mem_tableColumns.mp he).1)
    exact htable ▸ hhint
  · intro hhint
    exact ⟨e.1, List.mem_map_of_mem he, e.2, (SchemaConfig.mem_tableColumns.mp he).1, hhint⟩

/-- Two tests let through the same elements of a list only if they agree on all of them. -/
theorem filter_eq_filter_iff {α : Type} {l : List α} {p q : α → Bool} :
    l.filter p = l.filter q ↔ ∀ a ∈ l, p a = q a := by
  refine ⟨fun h a ha => Bool.eq_iff_iff.mpr ?_, List.filter_congr⟩
  have hp : a ∈ l.filter p ↔ p a = true := List.mem_filter.trans (and_iff_right ha)
  have hq : a ∈ l.filter q ↔ q a = true := List.mem_filter.trans (and_iff_right ha)
  rw [← hp, h, hq]

/-- **The same sources are found**, unless one whose catalogue cannot be read has the table. -/
theorem sourcesFound_eq_iff (hshown : ∀ s ∈ D.sourcesOf e.1,
    showsSome N S (scansOf N S D W o) e.1 e.2 s = showsSome N S (scansOf N S D W .clear) e.1 e.2 s) :
    sourcesFound N S D W o (scansOf N S D W o) e = sourcesFound N S D W .clear (scansOf N S D W .clear) e ↔
      ∀ name ∈ D.names, name ∉ D.sourcesOf e.1 → o.catalogue name = true →
        N.tableLocation e.1 (S.tableSchema N e.1) (W name).defaultSchema ∉ (W name).catalogue := by
  have hpresent : (D.sourcesOf e.1).filter (fun s => showsSome N S (scansOf N S D W o) e.1 e.2 s = some true) =
      (D.sourcesOf e.1).filter fun s => showsSome N S (scansOf N S D W .clear) e.1 e.2 s = some true :=
    List.filter_congr fun s hs => by rw [hshown s hs]
  unfold sourcesFound
  rw [hpresent, filter_eq_filter_iff]
  refine forall₂_congr fun name _ => ?_
  by_cases hin : name ∈ D.sourcesOf e.1
  · exact iff_of_true (by simp [hin]) fun h => absurd hin h
  · have habsent : name ∉ (D.sourcesOf e.1).filter
        fun s => showsSome N S (scansOf N S D W .clear) e.1 e.2 s = some true :=
      fun h => hin (List.mem_of_mem_filter h)
    rw [decide_eq_false habsent, decide_eq_true hin, Bool.false_or, Bool.true_and, Bool.false_or, Bool.true_and]
    unfold catalogueHas
    cases o.catalogue name <;> simp [hin, Outage.clear]

/-- **The hint about a table whose copies were all read** is the one without the outage. -/
theorem misplacedHint_eq_clear_iff (hseveral : 1 < D.names.length) (he : e ∈ S.tableColumns)
    (hread : AllRead N S D W o e.1) :
    misplacedHint N S D W o (scansOf N S D W o) e.1 e.2 =
        misplacedHint N S D W .clear (scansOf N S D W .clear) e.1 e.2 ↔
      ((∃ name, Absent N S D W e name) → ∀ name ∈ D.names, name ∉ D.sourcesOf e.1 → o.catalogue name = true →
        N.tableLocation e.1 (S.tableSchema N e.1) (W name).defaultSchema ∉ (W name).catalogue) := by
  have hshown : ∀ s ∈ D.sourcesOf e.1,
      showsSome N S (scansOf N S D W o) e.1 e.2 s = showsSome N S (scansOf N S D W .clear) e.1 e.2 s :=
    fun s hs => showsSome_eq_clear hseveral he hread hs
  have habsent : (D.sourcesOf e.1).filter (fun s => showsSome N S (scansOf N S D W o) e.1 e.2 s = some false) =
      (D.sourcesOf e.1).filter fun s => showsSome N S (scansOf N S D W .clear) e.1 e.2 s = some false :=
    List.filter_congr fun s hs => by rw [hshown s hs]
  have hmissing : (D.sourcesOf e.1).filter
      (fun s => showsSome N S (scansOf N S D W .clear) e.1 e.2 s = some false) ≠ [] ↔
      ∃ name, Absent N S D W e name := by
    rw [ne_eq, List.eq_nil_iff_forall_not_mem, not_forall_not]
    refine exists_congr fun name => ?_
    rw [List.mem_filter, decide_eq_true_eq, showsSome_clear_iff hseveral he]
  rw [misplacedHint_eq, misplacedHint_eq, habsent, hintOf_eq_iff, or_iff_not_imp_left, ← ne_eq, hmissing,
    sourcesFound_eq_iff hshown]

/-- The hints about one table agree when the hint about it does. -/
theorem hints_agree_iff (he : e ∈ S.tableColumns) {o' : Outage} {scans scans' : List SourceScan} :
    (∀ m, m.table = e.1 →
      (m ∈ findMisplacedTables N S D W o scans ↔ m ∈ findMisplacedTables N S D W o' scans')) ↔
    misplacedHint N S D W o scans e.1 e.2 = misplacedHint N S D W o' scans' e.1 e.2 := by
  constructor
  · intro h
    refine Option.ext fun m => ⟨fun hhint => ?_, fun hhint => ?_⟩
    · have hm : m.table = e.1 := hintOf_table hhint
      exact (mem_findMisplacedTables he hm).mp ((h m hm).mp ((mem_findMisplacedTables he hm).mpr hhint))
    · have hm : m.table = e.1 := hintOf_table hhint
      exact (mem_findMisplacedTables he hm).mp ((h m hm).mpr ((mem_findMisplacedTables he hm).mpr hhint))
  · intro h m hm
    rw [mem_findMisplacedTables he hm, mem_findMisplacedTables he hm, h]

end Tables

/-! ## The types that are left -/

section Types

variable {N : NameReader} {S : SchemaConfig} {D : Datasources} {W : String → LiveSource} {o : Outage}
  {persistBaseline : Bool} {baseline left : Option (OrderedDict String String)} {id : String}

/-- A column that is hidden has no type among those the outage leaves. -/
theorem lookup_shownIds_of_hidden (hid : Hidden N S D W o id) :
    (shownIds N S D (scansOf N S D W o)).lookup id = none := by
  rw [AList.lookup_eq_none, mem_shownIds]
  exact hid.2

/-- **The types of hidden columns are kept** when they have none to lose, or when nothing is stored. -/
theorem typesKept_iff :
    (∀ id, Hidden N S D W o id →
        ((if persistBaseline then some (shownIds N S D (scansOf N S D W o)) else baseline).getD ∅).lookup id =
          (baseline.getD ∅).lookup id) ↔
      (persistBaseline = true → ∀ id, Hidden N S D W o id → (baseline.getD ∅).lookup id = none) := by
  cases persistBaseline with
  | false => exact iff_of_true (fun _ _ => rfl) fun h => absurd h Bool.false_ne_true
  | true =>
    rw [imp_iff_right rfl]
    refine forall₂_congr fun id hid => ?_
    rw [if_pos rfl, Option.getD_some, lookup_shownIds_of_hidden hid, eq_comm]

/-- Types that agree on a column lead to the same finding about its type. -/
theorem typeChanged_congr {previous previous' : OrderedDict String String} {change : TypeChanged}
    (h : previous.lookup change.column = previous'.lookup change.column) :
    change ∈ (reportOf N S D W o previous (scansOf N S D W o)).typeChanged ↔
      change ∈ (reportOf N S D W o previous' (scansOf N S D W o)).typeChanged := by
  rw [mem_typeChanged_report, mem_typeChanged_report, h]

end Types

/-! ## The main result -/

section Main

variable {N : NameReader} {S : SchemaConfig} {D : Datasources} {W : String → LiveSource} {o : Outage}
  {persistBaseline : Bool} {baseline : Option (OrderedDict String String)}

/-- A copy that was not read is reported as such when its table is unverifiable and no column of it is
missing. -/
theorem unread_iff (hreached : Reached S D o) {previous : OrderedDict String String} :
    (∀ name ∈ askedSources S D, ∀ e ∈ (partOf S D name).tableColumns, unreadCopy N S W o name e.1 = true →
      e.1 ∈ (reportOf N S D W o previous (scansOf N S D W o)).unverifiableTables ∧
      ∀ c ∈ e.2.columnNames,
        fileIdAt S D name e.1 c ∉ (reportOf N S D W o previous (scansOf N S D W o)).schemaOnly) ↔
    ∀ name ∈ askedSources S D, ∀ e ∈ (partOf S D name).tableColumns, unreadCopy N S W o name e.1 = true →
      Unbuilt D o e.1 ∧ ∀ c ∈ e.2.columnNames, FileHas S D o (fileIdAt S D name e.1 c) →
        SourceShows N S D W o (fileIdAt S D name e.1 c) := by
  refine forall₂_congr fun name _ => forall₂_congr fun e he => imp_congr_right fun _ => and_congr ?_ ?_
  · exact mem_unverifiable hreached (mem_of_mem_partOf he)
  · refine forall₂_congr fun c _ => ?_
    rw [mem_schemaOnly_report, not_and, not_not]

/-- The findings about the tables that were read are those of a run without failures. -/
theorem tables_iff (hreached : Reached S D o) {previous : OrderedDict String String} :
    (∀ e ∈ S.tableColumns, AllRead N S D W o e.1 →
      (e.1 ∈ (reportOf N S D W o previous (scansOf N S D W o)).unverifiableTables ↔
        e.1 ∈ (reportOf N S D W .clear previous (scansOf N S D W .clear)).unverifiableTables) ∧
      ∀ m, m.table = e.1 → (m ∈ (reportOf N S D W o previous (scansOf N S D W o)).misplacedTables ↔
        m ∈ (reportOf N S D W .clear previous (scansOf N S D W .clear)).misplacedTables)) ↔
    (1 < D.names.length → ∀ e ∈ S.tableColumns, AllRead N S D W o e.1 →
      (∃ name, Absent N S D W e name) → ∀ name ∈ D.names, name ∉ D.sourcesOf e.1 → o.catalogue name = true →
        N.tableLocation e.1 (S.tableSchema N e.1) (W name).defaultSchema ∉ (W name).catalogue) := by
  have hverified : ∀ e ∈ S.tableColumns, AllRead N S D W o e.1 →
      (e.1 ∈ (reportOf N S D W o previous (scansOf N S D W o)).unverifiableTables ↔
        e.1 ∈ (reportOf N S D W .clear previous (scansOf N S D W .clear)).unverifiableTables) := by
    intro e he hread
    refine (mem_unverifiable hreached he).trans (Iff.trans ?_ (mem_unverifiable reached_clear he).symm)
    refine and_congr_right fun hseveral => exists_congr fun name => and_congr_right fun hin => ?_
    refine or_congr_right' fun hname => iff_of_false (fun hengine => ?_) Bool.false_ne_true
    have hpart : e ∈ (partOf S D name).tableColumns := (mem_partOf_several hseveral).mpr ⟨he, hin⟩
    have hcopy := hread name (mem_askedSources (not_not.mp hname) hpart) ⟨e, hpart, rfl⟩
    rw [unread_of_engine hengine] at hcopy
    cases hcopy
  by_cases hseveral : 1 < D.names.length
  · have hmisplaced : ∀ o' : Outage, (reportOf N S D W o' previous (scansOf N S D W o')).misplacedTables =
        findMisplacedTables N S D W o' (scansOf N S D W o') := fun _ => if_pos hseveral
    rw [imp_iff_right hseveral, hmisplaced, hmisplaced]
    refine forall₂_congr fun e he => imp_congr_right fun hread => ?_
    rw [and_iff_right (hverified e he hread), hints_agree_iff he, misplacedHint_eq_clear_iff hseveral he hread]
  · have hmisplaced : ∀ o' : Outage, (reportOf N S D W o' previous (scansOf N S D W o')).misplacedTables = [] :=
      fun _ => if_neg hseveral
    rw [hmisplaced, hmisplaced]
    exact iff_of_true (fun e he hread => ⟨hverified e he hread, fun _ _ => Iff.rfl⟩) fun h => absurd h hseveral

/-- **Which outages are contained**: those that reach every source, leave no copy unread of a table that is
not unverifiable, hide no table of a catalogue a hint needs, and no column with a stored type. -/
theorem failuresContained_iff :
    FailuresContained N S D W o persistBaseline baseline ↔ OutageHarmless N S D W o persistBaseline baseline := by
  have hclear : checkDatasources N S D W .clear persistBaseline baseline =
      .ok (reportOf N S D W .clear (baseline.getD ∅) (scansOf N S D W .clear),
        if persistBaseline then some (shownIds N S D (scansOf N S D W .clear)) else baseline) :=
    checkDatasources_eq_ok_iff.mpr ⟨reached_clear, rfl, rfl⟩
  constructor
  · rintro ⟨report, left, hcheck, hcontained⟩
    obtain ⟨hreached, rfl, rfl⟩ := checkDatasources_eq_ok_iff.mp hcheck
    exact {
      reached := hreached
      copies := (unread_iff hreached).mp hcontained.unread
      hints := (tables_iff hreached).mp (hcontained.tables _ _ hclear)
      kept := typesKept_iff.mp hcontained.kept }
  · intro h
    refine ⟨_, _, checkDatasources_eq_ok_iff.mpr ⟨h.reached, rfl, rfl⟩, ?_⟩
    have hkept := typesKept_iff.mpr h.kept
    refine ⟨(unread_iff h.reached).mpr h.copies, ?_, ?_, hkept, ?_⟩
    · intro report₀ left₀ hcheck
      obtain ⟨-, rfl, -⟩ := checkDatasources_eq_ok_iff.mp hcheck
      exact fun id hid => columns_contained hid
    · intro report₀ left₀ hcheck
      obtain ⟨-, rfl, -⟩ := checkDatasources_eq_ok_iff.mp hcheck
      exact (tables_iff h.reached).mpr h.hints
    · intro W' persist report₁ left₁ report₂ left₂ hfirst hsecond id hid change hchange
      obtain ⟨-, rfl, -⟩ := checkDatasources_eq_ok_iff.mp hfirst
      obtain ⟨-, rfl, -⟩ := checkDatasources_eq_ok_iff.mp hsecond
      subst hchange
      exact typeChanged_congr (hkept _ hid)

end Main

/-! ## A failed read -/

/-- One source, with the customer table in it. -/
def oneSource : Datasources where
  default := "warehouse"
  others := []
  sets _ := none
  sets_ne_nil _ _ h := absurd h.symm (Option.some_ne_none _)

/-- `sales.Customer`, with the one column. -/
def customerSource : LiveSource where
  tableNames schema := if schema = some "sales" then ["Customer"] else []
  columns _ _ := [("ID", "INT")]
  catalogue := [("sales", "customer")]
  defaultSchema := "dbo"

/-- Every table is listed, none can be read. -/
def columnsFail : Outage := { Outage.clear with columns := fun _ _ _ => true }

/-- The type the last check stored. -/
def customerTypes : OrderedDict String String := .ofPairs [("Customer.ID", "int")]

/-- **A table that is listed and cannot be read** is reported as lacking its column, not as unverifiable, and
the type its column had is forgotten. -/
theorem failedRead_missing :
    (∃ report left, checkDatasources dottedNames customerFile oneSource (fun _ => customerSource) columnsFail
        true (some customerTypes) = .ok (report, left) ∧
      report.schemaOnly = ["Customer.ID"] ∧ report.unverifiableTables = [] ∧
      (left.getD ∅).lookup "Customer.ID" = none) ∧
    ¬ FailuresContained dottedNames customerFile oneSource (fun _ => customerSource) columnsFail true
      (some customerTypes) := by
  have hreached : Reached customerFile oneSource columnsFail := ⟨fun _ _ _ => rfl, fun _ _ _ => rfl⟩
  refine ⟨⟨_, _, checkDatasources_eq_ok_iff.mpr ⟨hreached, rfl, rfl⟩, by decide, by decide,
    by decide⟩, ?_⟩
  rintro ⟨report, left, hcheck, hcontained⟩
  obtain ⟨-, rfl, -⟩ := checkDatasources_eq_ok_iff.mp hcheck
  have hasked : "warehouse" ∈ askedSources customerFile oneSource := by decide
  have hlisted : ("Customer", customerTable) ∈ (partOf customerFile oneSource "warehouse").tableColumns :=
    SchemaConfig.mem_tableColumns.mpr ⟨customerFile_lookup, List.cons_ne_nil _ _⟩
  have hunread : unreadCopy dottedNames customerFile (fun _ => customerSource) columnsFail "warehouse"
      "Customer" = true := by decide
  have hunverifiable := (hcontained.unread _ hasked _ hlisted hunread).1
  obtain ⟨hseveral, -⟩ := (mem_unverifiable hreached (mem_of_mem_partOf hlisted)).mp hunverifiable
  exact absurd hseveral (by decide)

end LocalSqlAgent
