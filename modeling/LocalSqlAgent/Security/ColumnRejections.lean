import LocalSqlAgent.Security.ColumnPolicy

/-! # Column rejections

Which passes of the guard refuse a statement over a column, and what such a rejection names: a denied
column, in the query's spelling or a star's, or the entry of a join-only one. -/

namespace LocalSqlAgent

variable {E : GuardEnv} {dialect : Dialect} {policy : ColumnPolicy} {tree : Expr}

/-- A rejection that is not over a column. -/
def NotOverColumn (e : Rejection) : Prop := e.reason ≠ .deniedColumn ∧ e.reason ≠ .joinOnlyColumn

/-- **What a rejection over a column names**: a column the policy denies, or a join-only entry of the
policy. -/
structure NamesPolicy (E : GuardEnv) (policy : ColumnPolicy) (e : Rejection) : Prop where
  /-- The subject of a denied-column rejection is denied. -/
  denied : e.reason = .deniedColumn → ∀ s, e.subject = some s →
    E.schema.case.upper s ∈ policy.denied
  /-- The subject of a join-only rejection is an entry. -/
  joinOnly : e.reason = .joinOnlyColumn → ∀ s, e.subject = some s →
    ∃ c ∈ policy.joinOnly, c.entry = s

theorem NotOverColumn.namesPolicy {e : Rejection} (h : NotOverColumn e) : NamesPolicy E policy e where
  denied hd := absurd hd h.1
  joinOnly hj := absurd hj h.2

/-- A denied-column rejection whose subject is denied. -/
theorem NamesPolicy.of_denied {e : Rejection} (hreason : e.reason = .deniedColumn)
    (hdenied : ∀ s, e.subject = some s → E.schema.case.upper s ∈ policy.denied) :
    NamesPolicy E policy e where
  denied _ := hdenied
  joinOnly hj := by
    rw [hreason] at hj
    cases hj

/-! ## The passes that look at no column -/

theorem notOverColumn_forbiddenKeyword (label : String) :
    NotOverColumn (.forbiddenKeyword label) := by
  constructor <;> exact nofun

theorem checkRoot_failsOnly : FailsOnly NotOverColumn (checkRoot E tree) := by
  refine FailsOnly.bind ?_ fun _ => ?_
  · exact failsOnly_refuseSome.mpr fun label _ => notOverColumn_forbiddenKeyword label
  · exact failsOnly_refuseIf.mpr fun _ => ⟨nofun, nofun⟩

theorem checkAllowlist_failsOnly {name : String} {qualifier : List String} :
    FailsOnly NotOverColumn (checkAllowlist E name qualifier) := by
  unfold checkAllowlist
  simp only
  split
  · exact failsOnly_ok
  all_goals exact failsOnly_error.mpr ⟨nofun, nofun⟩

theorem checkTable_failsOnly {ctes : List String} {node : Expr} :
    FailsOnly NotOverColumn (checkTable E dialect ctes node) := by
  unfold checkTable
  refine FailsOnly.bind ?_ fun _ => FailsOnly.bind ?_ fun _ => FailsOnly.bind ?_ fun _ =>
    FailsOnly.bind ?_ fun _ => FailsOnly.bind ?_ fun _ => ?_
  · exact failsOnly_refuseIf.mpr fun _ => notOverColumn_forbiddenKeyword _
  all_goals try exact failsOnly_refuseIf.mpr fun _ => ⟨nofun, nofun⟩
  split
  · exact checkAllowlist_failsOnly
  · exact failsOnly_ok

theorem checkNode_failsOnly {ctes : List String} {node : Expr} :
    FailsOnly NotOverColumn (checkNode E dialect ctes node) := by
  unfold checkNode
  refine FailsOnly.bind ?_ fun _ => FailsOnly.bind ?_ fun _ => FailsOnly.bind ?_ fun _ =>
    FailsOnly.bind ?_ fun _ => ?_
  · exact failsOnly_refuseSome.mpr fun label _ => notOverColumn_forbiddenKeyword label
  all_goals try exact failsOnly_refuseIf.mpr fun _ => ⟨nofun, nofun⟩
  split
  · exact failsOnly_refuseIf.mpr fun _ => notOverColumn_forbiddenKeyword _
  · exact checkTable_failsOnly
  · exact failsOnly_ok

theorem requireSingleDatasource_failsOnly :
    FailsOnly NotOverColumn (requireSingleDatasource E tree) := by
  unfold requireSingleDatasource
  simp only
  split
  · exact failsOnly_ok
  · split
    · exact failsOnly_error.mpr ⟨nofun, nofun⟩
    · exact failsOnly_ok

theorem checkProjection_failsOnly {node : Expr} :
    FailsOnly NotOverColumn (checkProjection E dialect node) := by
  unfold checkProjection
  refine FailsOnly.bind ?_ fun _ => ?_
  · exact failsOnly_refuseIf.mpr fun _ => notOverColumn_forbiddenKeyword _
  · split
    · exact failsOnly_refuseIf.mpr fun _ => ⟨nofun, nofun⟩
    · exact failsOnly_ok

theorem checkHasTable_failsOnly : FailsOnly NotOverColumn (checkHasTable E tree) :=
  failsOnly_refuseIf.mpr fun _ => ⟨nofun, nofun⟩

/-! ## The passes over columns -/

theorem checkColumn_failsOnly {column : Expr} :
    FailsOnly (NamesPolicy E policy) (checkColumn E tree policy.denied column) := by
  unfold checkColumn
  simp only
  split
  · exact failsOnly_ok
  · refine FailsOnly.bind ?_ fun _ => ?_
    · refine failsOnly_refuseIf.mpr fun hdenied => .of_denied rfl fun s hs => ?_
      cases hs
      exact hdenied
    · split
      · exact failsOnly_ok
      · split
        · exact failsOnly_ok
        · refine failsOnly_refuseIf.mpr fun _ => NotOverColumn.namesPolicy ?_
          constructor <;> (intro hreason; cases hreason)

/-- A star names the one denied column it exposes, as the schema spells it. -/
theorem checkDeniedStar_failsOnly {star : ExprOcc} :
    FailsOnly (NamesPolicy E policy) (checkDeniedStar E tree policy.denied star) := by
  unfold checkDeniedStar
  simp only
  split
  · refine failsOnly_error.mpr (.of_denied rfl fun s hs => ?_)
    cases hs
  · rename_i tables _
    refine failsOnly_refuseIf.mpr fun _ => .of_denied rfl fun s hs => ?_
    generalize hexposed : sortedStrings ((tables.flatMap fun t => E.schema.columnsByTable t).filter
      fun column => E.schema.case.upper column ∈ policy.denied) = exposed at hs
    have hsubject : exposed.head? = some s := by
      simp only [Rejection.policy] at hs
      split at hs
      · exact hs
      · cases hs
    have hmem : s ∈ exposed := List.mem_of_head? hsubject
    rw [← hexposed, sortedStrings, List.mem_insertionSort, List.mem_filter] at hmem
    simpa using hmem.2

theorem checkDeniedStars_failsOnly :
    FailsOnly (NamesPolicy E policy) (checkDeniedStars E tree policy.denied) := by
  unfold checkDeniedStars
  split
  · exact failsOnly_ok
  · exact FailsOnly.checkAll fun _ _ => checkDeniedStar_failsOnly

/-! ## The join-only pass -/

variable {S : Schema} {R : JoinOnlyRestrictions}

theorem hasEntry_of_mem_columnsOf {key : String} {c : String × String} (h : c ∈ R.columnsOf key) :
    R.HasEntry c.2 := by
  rw [JoinOnlyRestrictions.columnsOf] at h
  cases hlookup : R.byTable.lookup key with
  | none =>
    rw [hlookup] at h
    cases h
  | some columns =>
    rw [hlookup, Option.getD_some] at h
    obtain ⟨before, after, htables, -⟩ := List.lookup_eq_some_iff.mp hlookup
    have hmem : (key, columns) ∈ R.byTable := by
      rw [htables]
      exact List.mem_append_right _ List.mem_cons_self
    exact ⟨_, hmem, c, h, rfl⟩

theorem hasEntry_of_entry {C : CaseMaps} {t : SchemaTable} {column entry : String}
    (h : R.entry C t column = some entry) : R.HasEntry entry := by
  obtain ⟨before, after, hcolumns, -⟩ := List.lookup_eq_some_iff.mp h
  have hmem : (C.casefold column, entry) ∈ R.columnsOf t.key := by
    rw [hcolumns]
    exact List.mem_append_right _ List.mem_cons_self
  exact hasEntry_of_mem_columnsOf hmem

theorem isSome_entry_of_mem_unqualifiedTables {ctes : List String} {name : String}
    {scopes : List Expr} {t : SchemaTable} (h : t ∈ unqualifiedTables S ctes R name scopes) :
    (R.entry S.case t name).isSome = true := by
  induction scopes with
  | nil => cases h
  | cons select outer ih =>
    rw [unqualifiedTables] at h
    split at h
    · rename_i hit hits hfilter
      rw [← hfilter] at h
      exact (List.mem_filter.mp h).2
    · split at h
      · cases h
      · exact ih h

/-- A table the guard takes a column to be restricted on restricts it. -/
theorem isSome_entry_of_mem_restrictedTablesOf {column : ExprOcc} {t : SchemaTable}
    (h : t ∈ restrictedTablesOf S tree R column) :
    (R.entry S.case t column.node.name).isSome = true := by
  rw [← R.entry_lower]
  unfold restrictedTablesOf at h
  simp only at h
  split at h
  · split at h
    · exact (List.mem_filter.mp h).2
    · exact (List.mem_filter.mp h).2
  · split at h
    · exact (List.mem_filter.mp h).2
    · exact isSome_entry_of_mem_unqualifiedTables h

/-- A rejection of the join-only pass names an entry of the restrictions, or nothing. -/
def NamesEntry (R : JoinOnlyRestrictions) (e : Rejection) : Prop :=
  e.reason = .joinOnlyColumn ∧ ∀ s, e.subject = some s → R.HasEntry s

theorem namesEntry_joinOnlyRejection {entry table column : String} {unqualified : Bool}
    (h : R.HasEntry entry) : NamesEntry R (joinOnlyRejection entry table column unqualified) :=
  ⟨rfl, fun _ hs => by cases hs; exact h⟩

theorem checkJoinOnlyColumn_failsOnly {column : ExprOcc} :
    FailsOnly (NamesEntry R) (checkJoinOnlyColumn S tree R column) := by
  unfold checkJoinOnlyColumn
  simp only
  split
  · exact failsOnly_ok
  · split
    · exact failsOnly_ok
    · rename_i table rest htables
      have hsome := isSome_entry_of_mem_restrictedTablesOf (htables ▸ List.mem_cons_self)
      obtain ⟨entry, hentry⟩ := Option.isSome_iff_exists.mp hsome
      refine failsOnly_refuseIf.mpr fun _ => namesEntry_joinOnlyRejection ?_
      rw [hentry, Option.getD_some]
      exact hasEntry_of_entry hentry

theorem checkJoinOnlyJoin_failsOnly {join : ExprOcc} :
    FailsOnly (NamesEntry R) (checkJoinOnlyJoin S tree R join) := by
  unfold checkJoinOnlyJoin
  split
  · exact failsOnly_ok
  · refine FailsOnly.bind ?_ fun _ => ?_
    · refine FailsOnly.checkAll fun ident _ => ?_
      split
      · refine FailsOnly.checkAll fun t _ => failsOnly_refuseSome.mpr fun entry hentry => ?_
        exact namesEntry_joinOnlyRejection (hasEntry_of_entry hentry)
      · exact failsOnly_ok
    · split
      · split
        · refine FailsOnly.checkAll fun t _ => failsOnly_refuseSome.mpr fun c hc => ⟨rfl, ?_⟩
          intro s hs
          cases hs
          exact hasEntry_of_mem_columnsOf (List.mem_of_head? hc)
        · exact failsOnly_ok
      · exact failsOnly_ok

theorem checkJoinOnlyStar_failsOnly {repr : String → String} {star : ExprOcc} :
    FailsOnly (NamesEntry R) (checkJoinOnlyStar repr S tree R star) := by
  unfold checkJoinOnlyStar
  split
  · exact failsOnly_ok
  · simp only
    generalize hentries : sortedStrings (((expandStar S tree star).tables.dedup.flatMap fun t =>
      (R.columnsOf t.key).map (·.2)).dedup) = entries
    refine FailsOnly.bind ?_ fun _ => ?_
    · refine failsOnly_refuseIf.mpr fun _ => ⟨rfl, fun s hs => ?_⟩
      have hsubject : entries.head? = some s := by
        simp only [Rejection.refusal] at hs
        split at hs
        · exact hs
        · cases hs
      have hmem : s ∈ entries := List.mem_of_head? hsubject
      rw [← hentries, sortedStrings, List.mem_insertionSort, List.mem_dedup, List.mem_flatMap] at hmem
      obtain ⟨t, -, ht⟩ := hmem
      obtain ⟨c, hc, rfl⟩ := List.mem_map.mp ht
      exact hasEntry_of_mem_columnsOf hc
    · refine failsOnly_refuseIf.mpr fun _ => ⟨rfl, fun s hs => ?_⟩
      cases hs

/-- **The join-only pass** raises nothing but join-only rejections, over its own entries. -/
theorem enforceJoinOnly_failsOnly {repr : String → String} :
    FailsOnly (NamesEntry R) (enforceJoinOnly repr S tree R) := by
  unfold enforceJoinOnly
  refine FailsOnly.bind ?_ fun _ => FailsOnly.bind ?_ fun _ => ?_
  · exact FailsOnly.checkAll fun _ _ => checkJoinOnlyColumn_failsOnly
  · exact FailsOnly.checkAll fun _ _ => checkJoinOnlyJoin_failsOnly
  · exact FailsOnly.checkAll fun _ _ => checkJoinOnlyStar_failsOnly

theorem checkJoinOnly_failsOnly :
    FailsOnly (NamesPolicy E policy) (checkJoinOnly E tree (policy.guardPolicy E)) := by
  unfold checkJoinOnly
  split
  · exact failsOnly_ok
  · rename_i resolve hresolve
    have hpolicy : resolve = resolveJoinOnly E policy.joinOnly := by
      simp only [ColumnPolicy.guardPolicy] at hresolve
      split at hresolve
      · cases hresolve
      · exact (Option.some.inj hresolve).symm
    split
    · exact failsOnly_error.mpr (NotOverColumn.namesPolicy ⟨by rintro ⟨⟩, by rintro ⟨⟩⟩)
    · rename_i R hR
      split
      · exact failsOnly_ok
      · refine enforceJoinOnly_failsOnly.mono fun e he => ⟨fun hd => ?_, fun _ s hs => ?_⟩
        · rw [he.1] at hd
          cases hd
        · rw [hpolicy, resolveJoinOnly] at hR
          rcases hasEntry_of_resolveFrom hR (he.2 s hs) with ⟨t, ht, -⟩ | h
          · cases ht
          · exact h

/-! ## The whole guard -/

/-- **Every rejection over a column names the policy.** -/
theorem validateTree_failsOnly :
    FailsOnly (NamesPolicy E policy) (validateTree E dialect (policy.guardPolicy E) tree) := by
  have hother : ∀ e, NotOverColumn e → NamesPolicy E policy e := fun e he => he.namesPolicy
  unfold validateTree
  refine FailsOnly.bind (checkRoot_failsOnly.mono hother) fun _ => ?_
  refine FailsOnly.bind (FailsOnly.checkAll fun _ _ => checkNode_failsOnly.mono hother) fun _ => ?_
  refine FailsOnly.bind (requireSingleDatasource_failsOnly.mono hother) fun _ => ?_
  refine FailsOnly.bind (FailsOnly.checkAll fun _ _ => checkColumn_failsOnly) fun _ => ?_
  refine FailsOnly.bind checkDeniedStars_failsOnly fun _ => ?_
  refine FailsOnly.bind checkJoinOnly_failsOnly fun _ => ?_
  refine FailsOnly.bind (FailsOnly.checkAll fun _ _ => checkProjection_failsOnly.mono hother) fun _ => ?_
  exact checkHasTable_failsOnly.mono hother

theorem validateStatements_failsOnly {parsed : List (Option Expr)} :
    FailsOnly (NamesPolicy E policy)
      (validateStatements E dialect (policy.guardPolicy E) parsed) := by
  unfold validateStatements
  split
  · exact failsOnly_error.mpr (NotOverColumn.namesPolicy ⟨by rintro ⟨⟩, by rintro ⟨⟩⟩)
  · exact validateTree_failsOnly
  · split
    · exact failsOnly_error.mpr (notOverColumn_forbiddenKeyword _).namesPolicy
    · exact failsOnly_error.mpr (NotOverColumn.namesPolicy ⟨by rintro ⟨⟩, by rintro ⟨⟩⟩)

/-- **What a rejection under a key's entries names**: a column an entry denies, or an entry's own
scope. -/
structure NamesEntries (E : GuardEnv) (entries : List String) (e : Rejection) : Prop where
  /-- The subject of a denied-column rejection is denied by an entry. -/
  denied : e.reason = .deniedColumn → ∀ s, e.subject = some s →
    ∃ entry ∈ entries, DeniesColumn E.schema.case E.repr entry s
  /-- The subject of a join-only rejection has an entry's scope. -/
  joinOnly : e.reason = .joinOnlyColumn → ∀ s, e.subject = some s →
    ∃ entry ∈ entries, SameRestriction E.schema.case E.repr entry s

theorem NamesPolicy.namesEntries {entries : List String} {e : Rejection}
    (hparse : parseColumnPolicy E.schema.case E.repr entries = .ok policy)
    (h : NamesPolicy E policy e) : NamesEntries E entries e where
  denied hreason s hs := by
    rcases ((parseFrom_ok hparse).1 _).mp (h.denied hreason s hs) with hnil | ⟨entry, hmem, names, hread⟩
    · cases hnil
    · exact ⟨entry, hmem, names, hread⟩
  joinOnly hreason s hs := by
    obtain ⟨column, hcolumn, rfl⟩ := h.joinOnly hreason s hs
    rcases (parseFrom_ok hparse).2 column hcolumn with hnil | ⟨entry, hmem, hread⟩
    · cases hnil
    · exact ⟨entry, hmem, column, column, hread, (readDeniedEntry_restricts hread).2, rfl⟩

theorem NotOverColumn.namesEntries {entries : List String} {e : Rejection} (h : NotOverColumn e) :
    NamesEntries E entries e where
  denied hd := absurd hd h.1
  joinOnly hj := absurd hj h.2

/-- Under a malformed entry no statement is refused over a column. -/
theorem validateSqlWith_failsOnly_of_malformed {entries : List String} {parsed : List (Option Expr)}
    (h : ∃ entry ∈ entries, Malformed E.schema.case E.repr entry) :
    FailsOnly NotOverColumn (validateSqlWith E dialect entries parsed) := by
  unfold validateSqlWith
  split
  · rename_i policy hparse
    obtain ⟨entry, hentry, hmalformed⟩ := h
    exact absurd hmalformed (exists_parseFrom_ok.mp ⟨policy, hparse⟩ entry hentry)
  · split
    · refine FailsOnly.bind checkRoot_failsOnly fun _ => ?_
      refine FailsOnly.bind (FailsOnly.checkAll fun _ _ => checkNode_failsOnly) fun _ => ?_
      refine FailsOnly.bind requireSingleDatasource_failsOnly fun _ => ?_
      exact failsOnly_error.mpr ⟨by rintro ⟨⟩, by rintro ⟨⟩⟩
    · -- more or less than one statement: no policy is consulted
      rename_i hnot
      unfold validateStatements
      split
      · exact failsOnly_error.mpr ⟨by rintro ⟨⟩, by rintro ⟨⟩⟩
      · rename_i tree htree
        exact absurd htree (hnot tree)
      · split
        · exact failsOnly_error.mpr (notOverColumn_forbiddenKeyword _)
        · exact failsOnly_error.mpr ⟨by rintro ⟨⟩, by rintro ⟨⟩⟩

/-- **Every rejection over a column names the key's entries.** -/
theorem validateSqlWith_failsOnly {entries : List String} {parsed : List (Option Expr)} :
    FailsOnly (NamesEntries E entries) (validateSqlWith E dialect entries parsed) := by
  by_cases h : ∃ entry ∈ entries, Malformed E.schema.case E.repr entry
  · exact (validateSqlWith_failsOnly_of_malformed h).mono fun e he => he.namesEntries
  · have hread : ∀ entry ∈ entries, ¬ Malformed E.schema.case E.repr entry :=
      fun entry hentry hmalformed => h ⟨entry, hentry, hmalformed⟩
    obtain ⟨policy, hparse⟩ := exists_parseFrom_ok.mpr hread
    have hparse' : parseColumnPolicy E.schema.case E.repr entries = .ok policy := hparse
    rw [validateSqlWith, hparse']
    exact validateStatements_failsOnly.mono fun e he => he.namesEntries hparse

/-! ## A denied column is refused -/

/-- `SELECT column`. -/
def selectColumn (column : String) : Expr :=
  .ofCls .select [(.expressions, Expr.columnRef "" column)]

/-- **A denied column is refused** by its name alone, whatever the schema, while every entry can be
read. -/
theorem validateSqlWith_selectColumn {entries : List String} {entry column : String}
    (hread : ∀ x ∈ entries, ¬ Malformed E.schema.case E.repr x) (hentry : entry ∈ entries)
    (hdenies : DeniesColumn E.schema.case E.repr entry column) (hempty : column ≠ "")
    (hstar : column ≠ "*") :
    ∃ e, validateSqlWith E .tsql entries [some (selectColumn column)] = .error e ∧
      e.reason = .deniedColumn ∧ e.subject = some column := by
  obtain ⟨policy, hparse⟩ := exists_parseFrom_ok.mpr hread
  have hmem : E.schema.case.upper column ∈ policy.denied := by
    obtain ⟨names, hnames, hcolumn⟩ := hdenies
    exact ((parseFrom_ok hparse).1 _).mpr (Or.inr ⟨entry, hentry, names, hnames, hcolumn⟩)
  refine ⟨.policy ("Forbidden keyword detected: denied column '" ++ column ++ "'") .deniedColumn
    column, ?_, rfl, rfl⟩
  have hroot : checkRoot E (selectColumn column) = .ok () := rfl
  have hnodes : checkAll (fun o => checkNode E .tsql
      (cteNames E.schema.case (selectColumn column)) o.node) (walk (selectColumn column)) = .ok () := rfl
  have htables : findAll Cls.isTable (selectColumn column) = [] := rfl
  have hsingle : requireSingleDatasource E (selectColumn column) = .ok () := by
    simp [requireSingleDatasource, resolvedTables, htables]
  have hcolumn : checkColumn E (selectColumn column) policy.denied (Expr.columnRef "" column) =
      .error (.policy ("Forbidden keyword detected: denied column '" ++ column ++ "'")
        .deniedColumn column) := by
    have hname : (Expr.columnRef "" column).name = column := rfl
    unfold checkColumn
    simp only [hname, if_neg (not_or.mpr ⟨hempty, hstar⟩), refuseIf, if_pos hmem]
    rfl
  have hcolumns : checkAll (fun o => checkColumn E (selectColumn column) policy.denied o.node)
      (findAll Cls.isColumn (selectColumn column)) = .error (.policy
        ("Forbidden keyword detected: denied column '" ++ column ++ "'") .deniedColumn column) := by
    show (do checkColumn E (selectColumn column) policy.denied (Expr.columnRef "" column); _) = _
    rw [hcolumn]
    rfl
  have hparse' : parseColumnPolicy E.schema.case E.repr entries = .ok policy := hparse
  have htree : validateTree E .tsql (policy.guardPolicy E) (selectColumn column) = .error (.policy
      ("Forbidden keyword detected: denied column '" ++ column ++ "'") .deniedColumn column) := by
    unfold validateTree
    rw [hroot, hnodes, hsingle]
    exact congrArg (· >>= fun _ => _) hcolumns
  rw [validateSqlWith, hparse']
  exact htree

end LocalSqlAgent
