import LocalSqlAgent.Security.CteScope

/-! # What a join-only column is read through

SQL's own name resolution against the guard's. `ColumnReads` and `StarReads` say which physical
table a reference reads; `SeenColumn` and `SeenStar` say when the guard's collector looks at the
same source. On an accepted statement the reads it sees are join keys, so a restricted column
escapes exactly through a source it does not see. -/

namespace LocalSqlAgent

/-- The first element of a list that satisfies a predicate. -/
def FirstWith {α : Type*} (p : α → Prop) (l : List α) (a : α) : Prop :=
  ∃ pre post, l = pre ++ a :: post ∧ (∀ b ∈ pre, ¬ p b) ∧ p a

instance (S : Schema) (dialect : Dialect) (o : ExprOcc) : Decidable (NamesCte S dialect o) :=
  inferInstanceAs (Decidable (_ ∧ _))

section Reads

variable (S : Schema) (dialect : Dialect)

/-- The physical table a source is: no CTE in scope, and the table its reference resolves to. -/
def physicalTable (o : ExprOcc) : Option SchemaTable :=
  if o.node.cls = .table ∧ ¬ NamesCte S dialect o then resolveTableName S [] o.node else none

/-- A select has a source addressed as `q`. -/
def Addresses (q : String) (s : ExprOcc) : Prop :=
  ∃ src label, SourceOf s src label ∧ S.case.lower label = q

variable (extra : ExprOcc → String → Prop)

/-- A source exposes a column name: a physical table its columns, any source what `extra` says (the
output columns of a derived table, a CTE, a function or a pivot). -/
def Exposes (src : ExprOcc) (column : String) : Prop :=
  (∃ t, physicalTable S dialect src = some t ∧ S.case.lower column ∈ S.columnsByTable t) ∨
    extra src column

/-- A select has a source exposing a column name. -/
def ExposesIn (column : String) (s : ExprOcc) : Prop :=
  ∃ src label, SourceOf s src label ∧ Exposes S dialect extra src column

/-- An unqualified `ORDER BY` item that is the alias of an output column. -/
def ordersByAlias (o : ExprOcc) : Bool :=
  match o.frames with
  | f :: g :: h :: _ =>
    (match f.parent.cls with | .ordered _ => true | _ => false) && g.parent.cls = .order &&
      h.parent.cls = .select && h.key = .order &&
      ((h.parent.slot .expressions).filter (·.cls = .alias)).any fun e =>
        S.case.lower e.aliasName = S.case.lower o.node.name
  | _ => false

/-- **A column reference reads a table**: in the innermost select that has its qualifier, or that
exposes its name when it has none, through the source `src`. -/
def ColumnReads (o s src : ExprOcc) (t : SchemaTable) : Prop :=
  physicalTable S dialect src = some t ∧
    if o.node.qualifier ≠ "" then
      let q := S.case.lower o.node.qualifier
      FirstWith (Addresses S q) (sqlScopes o) s ∧
        ∃ label, SourceOf s src label ∧ S.case.lower label = q
    else
      ordersByAlias S o = false ∧
        FirstWith (ExposesIn S dialect extra o.node.name) (sqlScopes o) s ∧
        (∃ label, SourceOf s src label) ∧ Exposes S dialect extra src o.node.name

/-- **A star reads a table**: `alias.*` the source its alias addresses, a bare `*` every source of
its select, `COUNT(*)` nothing. -/
def StarReads (o s src : ExprOcc) (t : SchemaTable) : Prop :=
  physicalTable S dialect src = some t ∧ isCountStar o = false ∧
    match starQualifier o with
    | some column =>
      let q := S.case.lower column.node.qualifier
      FirstWith (Addresses S q) (sqlScopes column) s ∧
        ∃ label, SourceOf s src label ∧ S.case.lower label = q
    | none => (sqlScopes o).head? = some s ∧ ∃ label, SourceOf s src label

/-- A column node that is no `alias.*`. -/
def IsColumnRef (o : ExprOcc) : Prop :=
  o.node.cls = .column ∧ (o.node.arg .this).any (·.cls.isStar) = false

variable (R : JoinOnlyRestrictions) (tree : Expr)

/-- **Restricted columns are join keys only**: every column reference that reads one is one side of
`col = col` in a join's `ON`, and no star reads one. -/
def JoinKeysOnly : Prop :=
  (∀ o, InTree tree o → IsColumnRef o → ∀ s src t, ColumnReads S dialect extra o s src t →
    (R.entry S.case t o.node.name).isSome → isJoinKeyOperand o = true) ∧
  ∀ o, InTree tree o → o.node.cls = .star → ∀ s src t, StarReads S dialect o s src t →
    R.restricts t = false

/-! ## What the guard's collector sees -/

/-- The guard collects `src` in `s` as the table `t`: it stands directly in the `FROM` or a `JOIN`
and no CTE of the statement has its name. -/
def Collected (s src : ExprOcc) (t : SchemaTable) : Prop :=
  src.node ∈ directFromSources s.node ∧ sourceTable S (cteNames S.case tree) src.node = some t

/-- The guard addresses `src` as `q`, and no select around `o` pivots a source the guard would also
address so. -/
def CollectedAs (q : String) (o src : ExprOcc) : Prop :=
  sourceLabel S.case src.node = q ∧ ∀ j ∈ sqlScopes o, ∀ n ∈ directFromSources j.node,
    sourceLabel S.case n = q → pivotAlias n = ""

/-- A column's read is one the guard looks at: a collected source, under the label the guard knows
it by, and a name its quick pre-filter lets through. -/
def SeenColumn (o s src : ExprOcc) (t : SchemaTable) : Prop :=
  Collected S tree s src t ∧
    (o.node.qualifier ≠ "" → CollectedAs S (S.case.lower o.node.qualifier) o src) ∧
    o.node.name ≠ "" ∧ o.node.name ≠ "*" ∧ S.case.lower o.node.name ∈ R.names

/-- A star's read is one the guard looks at. -/
def SeenStar (o s src : ExprOcc) (t : SchemaTable) : Prop :=
  Collected S tree s src t ∧
    ∀ column ∈ starQualifier o, CollectedAs S (S.case.lower column.node.qualifier) column src

/-- **No hidden read**: a restricted column is read only through sources the guard sees, or as a
join key. -/
def NoHiddenRead : Prop :=
  (∀ o, InTree tree o → IsColumnRef o → ∀ s src t, ColumnReads S dialect extra o s src t →
    (R.entry S.case t o.node.name).isSome → SeenColumn S R tree o s src t ∨
      isJoinKeyOperand o = true) ∧
  ∀ o, InTree tree o → o.node.cls = .star → ∀ s src t, StarReads S dialect o s src t →
    R.restricts t = true → SeenStar S tree o s src t

end Reads

/-! ## From SQL's resolution to the guard's -/

variable {S : Schema} {dialect : Dialect} {R : JoinOnlyRestrictions} {tree : Expr}
  {extra : ExprOcc → String → Prop}

theorem tableRefName_eq {C : CaseMaps} {e : Expr} (hcls : e.cls = .table) (h : e.name ≠ "") :
    (tableRefNameAndQualifier C e).1 = e.name := by
  simp [tableRefNameAndQualifier, RoseTree.tableRefParts_getLast? hcls h]

/-- A table the guard resolves is the physical table SQL reads there. -/
theorem physicalTable_of_sourceTable {src : ExprOcc} {t : SchemaTable} (hsrc : InTree tree src)
    (h : sourceTable S (cteNames S.case tree) src.node = some t) :
    physicalTable S dialect src = some t := by
  unfold sourceTable at h
  split at h
  · rename_i hcls
    have hnot : ¬ NamesCte S dialect src := by
      intro hcte
      have hname : src.node.name ≠ "" := AccountedFor.name_ne_empty (Or.inl hcte)
      have hmem := hcte.mem_cteNames hsrc
      simp [resolveTableName, tableRefName_eq hcls hname, hmem] at h
    rw [physicalTable, if_pos ⟨hcls, hnot⟩]
    unfold resolveTableName at h ⊢
    simp only at h ⊢
    split at h
    · cases h
    · rename_i hfree
      rw [not_or] at hfree
      rwa [if_neg (by simp [hfree.1])]
  · cases h

/-- A direct source of a select has an occurrence that SQL counts among its sources. -/
theorem exists_sourceOf {s : ExprOcc} {n : Expr} (h : n ∈ directFromSources s.node) :
    ∃ src, src.node = n ∧ SourceOf s src (sqlLabel n) := by
  rw [directFromSources, List.mem_append] at h
  rcases h with hfrom | hjoin
  · obtain ⟨f, hf, hn⟩ := Option.bind_eq_some_iff.mp (Option.mem_toList.mp hfrom)
    obtain ⟨fo, hfo, rfl⟩ := exists_mem_childrenAt (RoseTree.mem_children_of_arg hf)
    obtain ⟨src, hsrc, rfl⟩ := exists_mem_childrenAt (RoseTree.mem_children_of_arg hn)
    exact ⟨src, rfl, .from_ hfo hsrc⟩
  · obtain ⟨j, hj, hn⟩ := List.mem_filterMap.mp hjoin
    obtain ⟨jo, hjo, rfl⟩ := exists_mem_childrenAt (RoseTree.mem_slot.mp hj)
    obtain ⟨src, hsrc, rfl⟩ := exists_mem_childrenAt (RoseTree.mem_children_of_arg hn)
    exact ⟨src, rfl, .join hjo hsrc⟩

/-- Without a pivot the guard's label of a source is SQL's. -/
theorem lower_sqlLabel {C : CaseMaps} {n : Expr} (h : pivotAlias n = "") :
    C.lower (sqlLabel n) = sourceLabel C n := by
  unfold sqlLabel sourceLabel
  by_cases halias : n.aliasName = "" <;> by_cases hcls : n.cls = .table <;> simp [h, halias, hcls]

/-- The guard's qualified search passes selects without the label and stops at the first with it. -/
theorem qualifiedTables_append {ctes : List String} {q : String} {inner outer : List Expr}
    {s n : Expr} (hinner : ∀ j ∈ inner, ∀ m ∈ directFromSources j, sourceLabel S.case m ≠ q)
    (hn : n ∈ directFromSources s) (hlabel : sourceLabel S.case n = q) (hq : q ≠ "") {t : SchemaTable}
    (ht : sourceTable S ctes n = some t) :
    ∃ tables, qualifiedTables S ctes q (inner ++ s :: outer) = some tables ∧ t ∈ tables := by
  have hmem : ∀ {j : Expr}, q ∈ (scopeNames S ctes j).map (·.1) ↔
      ∃ m ∈ directFromSources j, sourceLabel S.case m = q := by
    intro j
    simp only [scopeNames, List.mem_map, List.mem_filter, decide_eq_true_eq]
    constructor
    · rintro ⟨p, ⟨⟨m, hm, rfl⟩, -⟩, hlab⟩
      exact ⟨m, hm, hlab⟩
    · rintro ⟨m, hm, hlab⟩
      exact ⟨_, ⟨⟨m, hm, rfl⟩, hlab ▸ hq⟩, hlab⟩
  induction inner with
  | nil =>
    rw [List.nil_append, qualifiedTables]
    rw [if_pos (hmem.mpr ⟨n, hn, hlabel⟩)]
    refine ⟨_, rfl, List.mem_filterMap.mpr ⟨(q, some t), ?_, rfl⟩⟩
    simp only [scopeNames, List.mem_filter, List.mem_map, decide_eq_true_eq, and_true]
    exact ⟨⟨n, hn, by rw [hlabel, ht]⟩, hq⟩
  | cons j inner ih =>
    have hno : q ∉ (scopeNames S ctes j).map (·.1) := fun h => by
      obtain ⟨m, hm, hlab⟩ := hmem.mp h
      exact hinner j List.mem_cons_self m hm hlab
    rw [List.cons_append, qualifiedTables]
    rw [if_neg hno]
    exact ih fun k hk => hinner k (List.mem_cons_of_mem j hk)

/-- The guard's unqualified search finds a restricted table of the first select in which a table has
the column. -/
theorem unqualifiedTables_append {ctes : List String} {name : String} {inner outer : List Expr}
    {s : Expr} {t : SchemaTable}
    (hinner : ∀ j ∈ inner, ∀ u ∈ scopeTables S ctes j, name ∉ S.columnsByTable u)
    (ht : t ∈ scopeTables S ctes s) (hentry : (R.entry S.case t name).isSome = true) :
    unqualifiedTables S ctes R name (inner ++ s :: outer) ≠ [] := by
  have hstop : ∀ {j : Expr} {rest : List Expr},
      ((scopeTables S ctes j).filter fun u => (R.entry S.case u name).isSome) ≠ [] →
        unqualifiedTables S ctes R name (j :: rest) ≠ [] := by
    intro j rest hhit
    rw [unqualifiedTables]
    split
    · exact List.cons_ne_nil _ _
    · contradiction
  induction inner with
  | nil => exact hstop (List.ne_nil_of_mem (List.mem_filter.mpr ⟨ht, hentry⟩))
  | cons j inner ih =>
    by_cases hhit : ((scopeTables S ctes j).filter fun u => (R.entry S.case u name).isSome) = []
    · have hany : ((scopeTables S ctes j).any fun u => decide (name ∈ S.columnsByTable u)) = false := by
        simpa using hinner j List.mem_cons_self
      rw [List.cons_append, unqualifiedTables]
      simp only [hhit, hany, Bool.false_eq_true, if_false]
      exact ih fun k hk => hinner k (List.mem_cons_of_mem j hk)
    · exact hstop hhit

/-- The guard's select chain extends SQL's. -/
theorem enclosingSelects_map_node {o s : ExprOcc} {pre post : List ExprOcc}
    (h : sqlScopes o = pre ++ s :: post) :
    ∃ outer, (enclosingSelects o).map (·.node) = pre.map (·.node) ++ s.node :: outer := by
  obtain ⟨rest, hrest⟩ := sqlScopes_initial o
  refine ⟨(post ++ rest).map (·.node), ?_⟩
  rw [← hrest, h]
  simp

/-- In the selects SQL passes over for a qualifier, the guard collects no such label either. -/
theorem sourceLabel_ne_of_not_addresses {o src : ExprOcc} {q : String} {pre post : List ExprOcc}
    (hsplit : sqlScopes o = pre ++ post) (hseen : CollectedAs S q o src)
    (hpre : ∀ j ∈ pre, ¬ Addresses S q j) :
    ∀ j ∈ pre.map (·.node), ∀ m ∈ directFromSources j, sourceLabel S.case m ≠ q := by
  intro j hj m hm hlabel
  obtain ⟨jo, hjo, rfl⟩ := List.mem_map.mp hj
  have hpivot := hseen.2 jo (by rw [hsplit]; exact List.mem_append_left _ hjo) m hm hlabel
  obtain ⟨src', rfl, hsource⟩ := exists_sourceOf hm
  exact hpre jo hjo ⟨src', _, hsource, (lower_sqlLabel hpivot).trans hlabel⟩

/-- **A qualified read the guard sees** is among the tables it finds behind the qualifier. -/
theorem exists_qualifiedTables {o s src : ExprOcc} {t : SchemaTable} {q : String} (hq : q ≠ "")
    (hfirst : FirstWith (Addresses S q) (sqlScopes o) s) (hcol : Collected S tree s src t)
    (hseen : CollectedAs S q o src) :
    ∃ tables, qualifiedTables S (cteNames S.case tree) q ((enclosingSelects o).map (·.node)) =
      some tables ∧ t ∈ tables := by
  obtain ⟨pre, post, hsplit, hpre, -⟩ := hfirst
  obtain ⟨outer, houter⟩ := enclosingSelects_map_node hsplit
  rw [houter]
  exact qualifiedTables_append (sourceLabel_ne_of_not_addresses hsplit hseen hpre) hcol.1 hseen.1 hq
    hcol.2

/-- A select of the scope chain is in the tree. -/
theorem InTree.of_mem_sqlScopes {o s : ExprOcc} (h : InTree tree o) (hs : s ∈ sqlScopes o) :
    InTree tree s :=
  h.of_mem_enclosingSelects ((sqlScopes_initial o).subset hs)

/-- A collected source is one of its select's tables. -/
theorem Collected.mem_scopeTables {s src : ExprOcc} {t : SchemaTable}
    (h : Collected S tree s src t) : t ∈ scopeTables S (cteNames S.case tree) s.node :=
  List.mem_filterMap.mpr ⟨src.node, h.1, h.2⟩

/-- In the selects SQL passes over for a name, no table the guard collects has the column. -/
theorem not_mem_columns_of_not_exposes {o : ExprOcc} {column : String} {pre post : List ExprOcc}
    (ho : InTree tree o) (hsplit : sqlScopes o = pre ++ post)
    (hpre : ∀ j ∈ pre, ¬ ExposesIn S dialect extra column j) :
    ∀ j ∈ pre.map (·.node), ∀ u ∈ scopeTables S (cteNames S.case tree) j,
      S.case.lower column ∉ S.columnsByTable u := by
  intro j hj u hu hmem
  obtain ⟨jo, hjo, rfl⟩ := List.mem_map.mp hj
  obtain ⟨n, hn, htable⟩ := List.mem_filterMap.mp hu
  obtain ⟨src, rfl, hsource⟩ := exists_sourceOf hn
  have hscope : jo ∈ sqlScopes o := by rw [hsplit]; exact List.mem_append_left _ hjo
  have hphys : physicalTable S dialect src = some u :=
    physicalTable_of_sourceTable (hsource.inTree (ho.of_mem_sqlScopes hscope)) htable
  exact hpre jo hjo ⟨src, _, hsource, Or.inl ⟨u, hphys, hmem⟩⟩

/-- **A read the guard sees counts as restricted**: `_restricted_tables_of` is not empty. -/
theorem restrictedTablesOf_ne_nil {o s src : ExprOcc} {t : SchemaTable} (ho : InTree tree o)
    (hread : ColumnReads S dialect extra o s src t) (hseen : SeenColumn S R tree o s src t)
    (hentry : (R.entry S.case t o.node.name).isSome = true) :
    restrictedTablesOf S tree R o ≠ [] := by
  obtain ⟨hcol, hlabelled, -⟩ := hseen
  obtain ⟨-, hread⟩ := hread
  rw [← R.entry_lower] at hentry
  unfold restrictedTablesOf
  by_cases hq : o.node.qualifier ≠ ""
  · rw [if_pos hq] at hread
    have hlower : S.case.lower o.node.qualifier ≠ "" := by rwa [ne_eq, S.case.lower_eq_empty]
    obtain ⟨tables, htables, hmem⟩ :=
      exists_qualifiedTables hlower hread.1 hcol (hlabelled hq)
    simp only [if_pos hlower, htables]
    exact List.ne_nil_of_mem (List.mem_filter.mpr ⟨hmem, hentry⟩)
  · rw [if_neg hq] at hread
    obtain ⟨-, ⟨pre, post, hsplit, hpre, -⟩, -⟩ := hread
    have hlower : S.case.lower o.node.qualifier = "" := by
      rw [S.case.lower_eq_empty]
      simpa using hq
    obtain ⟨outer, houter⟩ := enclosingSelects_map_node hsplit
    have hne : pre.map (·.node) ++ s.node :: outer ≠ [] := by simp
    simp only [hlower, ne_eq, not_true_eq_false, if_false, houter, hne]
    exact unqualifiedTables_append (not_mem_columns_of_not_exposes ho hsplit hpre)
      hcol.mem_scopeTables hentry

/-- **The column loop**: a read it sees of a restricted column is a join key. -/
theorem isJoinKeyOperand_of_seen {o s src : ExprOcc} {t : SchemaTable} (ho : InTree tree o)
    (hcheck : checkJoinOnlyColumn S tree R o = .ok ())
    (hread : ColumnReads S dialect extra o s src t) (hseen : SeenColumn S R tree o s src t)
    (hentry : (R.entry S.case t o.node.name).isSome = true) : isJoinKeyOperand o = true := by
  have hne := restrictedTablesOf_ne_nil ho hread hseen hentry
  obtain ⟨-, -, hname, hstar, hnames⟩ := hseen
  unfold checkJoinOnlyColumn at hcheck
  rw [if_neg (by simp [hname, hstar, hnames])] at hcheck
  split at hcheck
  · contradiction
  · simpa using hcheck

/-- A table with a restricted column shows in the entries a star would expose. -/
theorem entries_ne_nil {tables : List SchemaTable} {t : SchemaTable} (ht : t ∈ tables)
    (hres : R.restricts t = true) :
    sortedStrings ((tables.dedup.flatMap fun t => (R.columnsOf t.key).map (·.2)).dedup) ≠ [] := by
  have hcols : R.columnsOf t.key ≠ [] := by simpa [JoinOnlyRestrictions.restricts] using hres
  obtain ⟨c, hc⟩ := List.exists_mem_of_ne_nil _ hcols
  refine List.ne_nil_of_mem (a := c.2) ?_
  rw [sortedStrings, List.mem_insertionSort, List.mem_dedup, List.mem_flatMap]
  exact ⟨t, List.mem_dedup.mpr ht, List.mem_map.mpr ⟨c, hc, rfl⟩⟩

/-- **The star loop**: a star's read it sees is of no restricted table. -/
theorem restricts_eq_false_of_seen {repr : String → String} {o s src : ExprOcc} {t : SchemaTable}
    (hcheck : checkJoinOnlyStar repr S tree R o = .ok ())
    (hread : StarReads S dialect o s src t) (hseen : SeenStar S tree o s src t) :
    R.restricts t = false := by
  obtain ⟨-, hcount, hread⟩ := hread
  obtain ⟨hcol, hlabelled⟩ := hseen
  have hexpand : t ∈ (expandStar S tree o).tables := by
    unfold expandStar
    cases hstar : starQualifier o with
    | some column =>
      rw [hstar] at hread
      have hqual : column.node.qualifier ≠ "" := by
        unfold starQualifier at hstar
        split at hstar
        · split at hstar
          · rename_i hcond
            cases hstar
            exact hcond.2
          · cases hstar
        · cases hstar
      have hlower : S.case.lower column.node.qualifier ≠ "" := by
        rwa [ne_eq, S.case.lower_eq_empty]
      obtain ⟨tables, htables, hmem⟩ :=
        exists_qualifiedTables hlower hread.1 hcol (hlabelled column (by simp [hstar]))
      simpa [htables] using hmem
    | none =>
      rw [hstar] at hread
      obtain ⟨rest, hrest⟩ := List.head?_eq_some_iff.mp hread.1
      obtain ⟨outer, houter⟩ := sqlScopes_initial o
      have hhead : enclosingSelect o = some s := by
        rw [enclosingSelect, ← houter, hrest]
        rfl
      simpa [hhead, expandBareStar] using hcol.mem_scopeTables
  by_contra hres
  rw [Bool.not_eq_false] at hres
  unfold checkJoinOnlyStar at hcheck
  rw [if_neg (by simp [hcount])] at hcheck
  simp only [check_then_ok_iff, refuseIf_ok_iff, not_not] at hcheck
  exact entries_ne_nil hexpand hres hcheck.1

/-! ## The guarantee -/

variable {E : GuardEnv} {policy : GuardPolicy}

/-- What acceptance under a scoped policy gives: no restriction in force, or the enforcement
passed. -/
theorem enforceJoinOnly_of_accepted {resolve : Option String → Except String JoinOnlyRestrictions}
    (h : validateTree E dialect policy tree = .ok ()) (hpolicy : policy.joinOnly = some resolve)
    (hR : resolve (executingSource E tree) = .ok R) :
    R.byTable = [] ∨ enforceJoinOnly E.repr E.schema tree R = .ok () := by
  obtain ⟨-, -, -, -, -, hjoin, -⟩ := validateTree_ok_iff.mp h
  simp only [checkJoinOnly, hpolicy, hR] at hjoin
  split at hjoin
  · exact Or.inl ‹_›
  · exact Or.inr hjoin

/-- **Join-only columns of an accepted statement**: restricted columns are join keys only exactly
when none is read through a source the guard does not see. -/
theorem joinKeysOnly_iff_of_accepted
    {resolve : Option String → Except String JoinOnlyRestrictions}
    (h : validateTree E dialect policy tree = .ok ()) (hpolicy : policy.joinOnly = some resolve)
    (hR : resolve (executingSource E tree) = .ok R) (extra : ExprOcc → String → Prop) :
    JoinKeysOnly E.schema dialect extra R tree ↔ NoHiddenRead E.schema dialect extra R tree := by
  constructor
  · rintro ⟨hcolumns, hstars⟩
    refine ⟨fun o ho hcls s src t hread hentry => Or.inr (hcolumns o ho hcls s src t hread hentry),
      fun o ho hcls s src t hread hres => ?_⟩
    rw [hstars o ho hcls s src t hread] at hres
    cases hres
  · rintro ⟨hcolumns, hstars⟩
    rcases enforceJoinOnly_of_accepted h hpolicy hR with hempty | henforce
    · refine ⟨fun o ho hcls s src t hread hentry => ?_, fun o ho hcls s src t hread => ?_⟩
      · simp [JoinOnlyRestrictions.entry, JoinOnlyRestrictions.columnsOf, hempty] at hentry
      · simp [JoinOnlyRestrictions.restricts, JoinOnlyRestrictions.columnsOf, hempty]
    · simp only [enforceJoinOnly, check_then_ok_iff, checkAll_ok_iff, mem_findAll] at henforce
      obtain ⟨hcolcheck, -, hstarcheck⟩ := henforce
      refine ⟨fun o ho hcls s src t hread hentry => ?_, fun o ho hcls s src t hread => ?_⟩
      · rcases hcolumns o ho hcls s src t hread hentry with hseen | hkey
        · exact isJoinKeyOperand_of_seen ho (hcolcheck o ⟨ho, Cls.isColumn_iff.mpr hcls.1⟩) hread
            hseen hentry
        · exact hkey
      · by_contra hres
        rw [Bool.not_eq_false] at hres
        have hseen := hstars o ho hcls s src t hread hres
        rw [restricts_eq_false_of_seen (hstarcheck o ⟨ho, Cls.isStar_iff.mpr hcls⟩) hread hseen]
          at hres
        cases hres

/-- One column of `sales.Customer` is join-only. -/
def customerRestrictions (column : String) : JoinOnlyRestrictions where
  byTable := [("sales.Customer", [(asciiCase.casefold column, "sales.Customer." ++ column)])]
  entry_ne_empty := by simp

/-- The policy with `customerRestrictions` on every source. -/
def customerPolicy (column : String) : GuardPolicy where
  joinOnly := some fun _ => .ok (customerRestrictions column)

open Expr in
/-- `SELECT a.Name FROM sales.Customer AS a JOIN sales.Order AS o ON a.ID = o.CustomerID`. -/
def keyedJoin : Expr :=
  selectFrom [] [columnRef "a" "Name"] (tableRef "sales" "Customer" "a")
    [joinOn (tableRef "sales" "Order" "o") (equals (columnRef "a" "ID") (columnRef "o" "CustomerID"))]

open Expr in
/-- `SELECT Name FROM (sales.Customer AS a JOIN sales.Order AS o ON a.ID = o.CustomerID)`. -/
def hiddenJoin : Expr :=
  selectFrom [] [columnRef "" "Name"]
    (.ofCls .subquery [(.this, tableRef "sales" "Customer" "a"
      [joinOn (tableRef "sales" "Order" "o")
        (equals (columnRef "a" "ID") (columnRef "o" "CustomerID"))])])

theorem keyedJoin_joinKeysOnly_iff :
    validateTree salesEnv .tsql (customerPolicy "ID") keyedJoin = .ok () ∧
      (JoinKeysOnly salesSchema .tsql (fun _ _ => False) (customerRestrictions "ID") keyedJoin ↔
        NoHiddenRead salesSchema .tsql (fun _ _ => False) (customerRestrictions "ID") keyedJoin) :=
  ⟨rfl, joinKeysOnly_iff_of_accepted
    (show validateTree salesEnv .tsql (customerPolicy "ID") keyedJoin = .ok () from rfl) rfl rfl _⟩

/-- The parenthesised join at work: the restricted `Name` reaches the output of an accepted
statement. -/
theorem hiddenJoin_accepted_not_joinKeysOnly :
    validateTree salesEnv .tsql (customerPolicy "Name") hiddenJoin = .ok () ∧
      ¬ JoinKeysOnly salesSchema .tsql (fun _ _ => False) (customerRestrictions "Name")
        hiddenJoin := by
  refine ⟨rfl, fun ⟨hcolumns, _⟩ => ?_⟩
  -- the output column, its select, and the table two levels down
  let o : ExprOcc := ⟨Expr.columnRef "" "Name", [⟨hiddenJoin, .expressions, []⟩]⟩
  let root : ExprOcc := Occ.root hiddenJoin
  have ho : InTree hiddenJoin o :=
    InTree.root.child (Occ.mem_children.mpr ⟨.expressions, _, [], _, rfl, rfl⟩)
  obtain ⟨f, hf, hfnode⟩ := exists_mem_childrenAt (o := root) (k := .from_)
    (List.mem_cons_of_mem _ List.mem_cons_self)
  obtain ⟨p, hp, hpnode⟩ := exists_mem_childrenAt (o := f) (k := .this)
    (by rw [hfnode]; exact List.mem_cons_self)
  obtain ⟨src, hsrc, hsrcnode⟩ := exists_mem_childrenAt (o := p) (k := .this)
    (by rw [hpnode]; exact List.mem_cons_self)
  have hsource : SourceOf root src _ :=
    .inner (.from_ hf hp) (by rw [hpnode]; rfl) (by rw [hpnode]; rfl) hsrc
  have hqualifier : writtenQualifier salesSchema src = ["sales"] := by
    rw [writtenQualifier, hsrcnode]
    rfl
  have hphys : physicalTable salesSchema .tsql src = salesSchema.tables.head? := by
    rw [physicalTable, if_pos ⟨by rw [hsrcnode]; rfl, fun h => by simp [NamesCte, hqualifier] at h⟩,
      hsrcnode]
    rfl
  have hexposes : Exposes salesSchema .tsql (fun _ _ => False) src "Name" :=
    Or.inl ⟨_, hphys, by decide⟩
  have hread : ColumnReads salesSchema .tsql (fun _ _ => False) o root src _ :=
    ⟨hphys, rfl, ⟨[], [], rfl, nofun, ⟨src, _, hsource, hexposes⟩⟩, ⟨_, hsource⟩, hexposes⟩
  have hkey := hcolumns o ho ⟨rfl, rfl⟩ root src _ hread (by decide)
  cases hkey

end LocalSqlAgent
