import LocalSqlAgent.Session.PrevRows

/-! # Refining a statement stored in another dialect

A turn stores the text that ran, which `transpile_and_revalidate` wrote in the dialect of the deployment.
The composer reads every stored text as T-SQL.

* **`storedText`**: the text a turn keeps for a statement.
* **`SameRefinement`**: `strip_display_cap`, `predicate_columns` and `check_scan_truncated` do the same on
  two texts.
* **`stripTree_eq_iff`**: two statements are stripped to one body exactly when they are the same up to
  what is cleared and their tables read alike.
* **`sameRefinement_iff`**: the stored text refines as the T-SQL text does exactly when it still reads as
  that statement, in T-SQL. -/

namespace LocalSqlAgent

/-! ## The stored text -/

/-- `sqlglot.parse` and `Expression.sql`, for each dialect. -/
structure Sqlglot where
  /-- `sqlglot.parse(sql, read=dialect)`. -/
  parse : Dialect → SqlParser
  /-- `tree.sql(dialect=dialect)`. -/
  generate : Dialect → Expr → String

mutual

/-- `tree.transform(_strip_unsupported_national_literals, dialect)`: a replaced node is not entered. -/
def stripNational (d : Dialect) : Expr → Expr
  | .node l args =>
    if l.cls = .national ∧ d.profile.supportsNationalLiteral = false then
      .ofCls (.literal (RoseTree.text (.node l args) .this) true)
    else .node l (stripNationalArgs d args)

/-- The rewriting of the arguments. -/
def stripNationalArgs (d : Dialect) : List (Arg × Expr) → List (Arg × Expr)
  | [] => []
  | (k, e) :: rest => (k, stripNational d e) :: stripNationalArgs d rest

end

/-- `transpile_sql` from T-SQL; `none` when it refuses. -/
def Sqlglot.transpileSql (G : Sqlglot) (d : Dialect) (sql : String) : Option String :=
  match G.parse .tsql sql with
  | .ok (tree :: _) => some (G.generate d (stripNational d tree))
  | _ => none

/-- **The text stored for a turn**, of a statement the guard accepts: T-SQL passes through. -/
def Sqlglot.storedText (G : Sqlglot) (d : Dialect) (sql : String) : Option String :=
  if d = .tsql then some sql else G.transpileSql d sql

namespace ComposerEnv

variable (C : ComposerEnv)

/-! ## What the composer reads off a text -/

/-- The output name of a projection. -/
def projectionName (e : Expr) : String :=
  if e.cls = .alias then e.aliasName
  else if e.cls = .column ∧ (e.arg .this).any (·.cls = .star) then e.qualifier ++ ".*"
  else "*"

/-- **`predicate_columns`.** -/
def predicateColumns (parse : SqlParser) (sql : String) : List String :=
  match parse sql with
  | .ok [tree] => if tree.cls = .select then (C.qualifiedProjection tree).map projectionName else []
  | _ => []

/-- The probe of `check_scan_truncated`, around the text of the predicate. -/
def scanProbe (cap : ℕ) (uncapped : String) : String :=
  "SELECT COUNT(*) AS Cnt FROM (SELECT TOP " ++ toString (cap + 1) ++ " 1 AS _x FROM (" ++ uncapped ++
    ") AS _base) AS _check"

/-- **`check_scan_truncated`**; `execute` gives the first cell, `none` for an empty frame. -/
def checkScanTruncated (G : Sqlglot) (execute : String → Option ℤ) (sql : String) (cap : ℕ) :
    Except CompositionError Bool := do
  let uncapped ← C.stripDisplayCap (G.parse .tsql) sql
  return match execute (scanProbe cap (G.generate .tsql uncapped)) with
    | none => false
    | some count => decide ((cap : ℤ) < count)

/-- **The composer does the same on two texts.** -/
structure SameRefinement (G : Sqlglot) (stored sql : String) : Prop where
  predicate : C.stripDisplayCap (G.parse .tsql) stored = C.stripDisplayCap (G.parse .tsql) sql
  columns : C.predicateColumns (G.parse .tsql) stored = C.predicateColumns (G.parse .tsql) sql
  scan : ∀ execute cap, C.checkScanTruncated G execute stored cap = C.checkScanTruncated G execute sql cap

/-! ## The same predicate -/

/-- What stripping keeps of the arguments. -/
def keptArgs (s : Expr) : List (Arg × Expr) := (cleared s).children.filter fun e => e.1 ≠ .expressions

/-- The tables of the `FROM` and the joins read alike under two lists of CTE names. -/
def ReadAlike (s : Expr) (ctes ctes' : List String) : Prop :=
  ∀ t ∈ sources s, t.cls = .table → resolveTableName C.schema ctes t = resolveTableName C.schema ctes' t

/-- **Two selects have the same predicate**: they differ in the select list, the `DISTINCT`, the grouping,
the order and the limit at most, and no CTE in these changes what a table reads. -/
structure SamePredicate (s s' : Expr) : Prop where
  label : s.label = s'.label
  kept : keptArgs s = keptArgs s'
  tables : C.ReadAlike s (cteNames C.schema.case (cleared s)) (cteNames C.schema.case (cleared s'))
  columns : C.ReadAlike s (cteNames C.schema.case s) (cteNames C.schema.case s')

/-- The statements read the same to the composer: the same predicate, or no select of the same kind. -/
def SameStatement (s s' : Expr) : Prop :=
  if s.cls = .select then C.SamePredicate s s' else s'.cls ≠ .select ∧ s'.cls.typeName = s.cls.typeName

/-- **The text still reads as the statement, in T-SQL.** -/
def StillReads (G : Sqlglot) (tree : Expr) (stored : String) : Prop :=
  ∃ tree', G.parse .tsql stored = .ok [tree'] ∧ C.SameStatement tree tree'

variable {C}

/-! ## Stripping -/

theorem slot_keptArgs {s : Expr} {k : Arg} (hk : k ∉ clearedArgs) (hne : k ≠ .expressions) :
    (RoseTree.node s.label (keptArgs s)).slot k = s.slot k := by
  have hcleared : (RoseTree.node s.label (keptArgs s)).slot k = (cleared s).slot k := by
    refine slot_filter_of_mem fun e _ he => ?_
    rw [decide_eq_true_iff, he]
    exact hne
  rw [hcleared, cleared, slot_dropArgs_of_not_mem hk]

theorem sources_eq_of_keptArgs {s s' : Expr} (hlabel : s.label = s'.label) (hkept : keptArgs s = keptArgs s') :
    sources s = sources s' := by
  have hslot : ∀ k, k ∉ clearedArgs → k ≠ .expressions → s.slot k = s'.slot k := by
    intro k hk hne
    rw [← slot_keptArgs hk hne, hlabel, hkept, slot_keptArgs hk hne]
  exact sources_eq_of_slots (hslot _ (by decide) (by decide)) (hslot _ (by decide) (by decide))

theorem stripTree_eq_node (s : Expr) : C.stripTree s = .node s.label
    (keptArgs s ++ (C.qualifiedProjection (cleared s)).map fun e => (Arg.expressions, e)) := rfl

/-- The kept arguments can be read off the body. -/
theorem keptArgs_of_stripTree (s : Expr) :
    ((C.stripTree s).children.filter fun e => e.1 ≠ .expressions) = keptArgs s := by
  rw [stripTree_eq_node, RoseTree.children_node, List.filter_append]
  have hkept : (keptArgs s).filter (fun e => e.1 ≠ .expressions) = keptArgs s := by
    rw [keptArgs, List.filter_filter]
    simp only [Bool.and_self]
  have hnew : ((C.qualifiedProjection (cleared s)).map fun e => (Arg.expressions, e)).filter
      (fun e => e.1 ≠ .expressions) = [] := by
    rw [List.filter_eq_nil_iff]
    intro e he
    obtain ⟨n, -, rfl⟩ := List.mem_map.mp he
    simp
  rw [hkept, hnew, List.append_nil]

/-- **Two selects are stripped to one body** exactly when they have the same rest and their tables read
alike. -/
theorem stripTree_eq_iff {s s' : Expr} : C.stripTree s = C.stripTree s' ↔
    s.label = s'.label ∧ keptArgs s = keptArgs s' ∧
      C.ReadAlike s (cteNames C.schema.case (cleared s)) (cteNames C.schema.case (cleared s')) := by
  constructor
  · intro h
    have hlabel : (C.stripTree s).label = (C.stripTree s').label := congrArg RoseTree.label h
    rw [stripTree_eq_node, stripTree_eq_node, RoseTree.label_node, RoseTree.label_node] at hlabel
    have hkept : keptArgs s = keptArgs s' := by
      rw [← keptArgs_of_stripTree (C := C) s, h, keptArgs_of_stripTree]
    refine ⟨hlabel, hkept, (qualifiedProjection_eq_iff (sources_eq_of_keptArgs hlabel hkept)).mp ?_⟩
    rw [← slot_stripTree_expressions, ← slot_stripTree_expressions, h]
  · rintro ⟨hlabel, hkept, halike⟩
    have hprojection := (qualifiedProjection_eq_iff (sources_eq_of_keptArgs hlabel hkept)).mpr halike
    rw [stripTree_eq_node, stripTree_eq_node, hlabel, hkept, hprojection]

/-! ## Output names -/

/-- The output names of one source. -/
def sourceNames (C : ComposerEnv) (ctes : List String) (source : Expr) : List String :=
  (C.sourceProjection ctes source).map projectionName

/-- The output names of a table under its name in the statement; `none` for one that is not known. -/
def outputNames (name : String) : Option SchemaTable → List String
  | none => [name ++ ".*"]
  | some t => t.columns.map fun column => name ++ "_" ++ column

theorem sourceNames_table {ctes : List String} {source : Expr} (htable : source.cls = .table) :
    C.sourceNames ctes source = outputNames source.aliasOrName (resolveTableName C.schema ctes source) := by
  rw [sourceNames, sourceProjection, if_pos htable]
  cases hresolved : resolveTableName C.schema ctes source with
  | none => rfl
  | some t => exact List.map_map

/-- A star is no column's name. -/
theorem outputNames_head_ne (name : String) {t : SchemaTable} (hcolumns : t.columns ≠ []) :
    (outputNames name none).head? ≠ (outputNames name (some t)).head? := by
  obtain ⟨column, rest, hcase⟩ := List.exists_cons_of_ne_nil hcolumns
  simp only [outputNames, hcase, List.map_cons, List.head?_cons, ne_eq, Option.some.injEq]
  intro heq
  rw [String.append_assoc, String.append_right_inj] at heq
  have hlist := congrArg String.toList heq
  rw [String.toList_append] at hlist
  exact absurd (List.cons.inj hlist).1 (by decide)

theorem sourceNames_ne_nil (ctes : List String) (source : Expr) : C.sourceNames ctes source ≠ [] :=
  fun h => sourceProjection_ne_nil ctes source (List.map_eq_nil_iff.mp h)

/-- The first output name of a source tells how its table reads. -/
theorem sourceNames_head_inj {ctes ctes' : List String} {source : Expr} (htable : source.cls = .table)
    (h : (C.sourceNames ctes source).head? = (C.sourceNames ctes' source).head?) :
    resolveTableName C.schema ctes source = resolveTableName C.schema ctes' source := by
  have hcolumns : ∀ {ctes : List String} {t : SchemaTable}, resolveTableName C.schema ctes source = some t →
      t.columns ≠ [] := fun ht => C.schema.columns_ne_nil _ (mem_tables_of_resolveTableName ht)
  rw [sourceNames_table htable, sourceNames_table htable] at h
  cases ht : resolveTableName C.schema ctes source with
  | none =>
    cases ht' : resolveTableName C.schema ctes' source with
    | none => rfl
    | some t' =>
      rw [ht, ht'] at h
      exact absurd h (outputNames_head_ne _ (hcolumns ht'))
  | some t =>
    cases ht' : resolveTableName C.schema ctes' source with
    | none =>
      rw [ht, ht'] at h
      exact absurd h.symm (outputNames_head_ne _ (hcolumns ht))
    | some t' =>
      have hcanonical := canonical_of_resolveTableName ht
      rwa [canonical_of_resolveTableName ht', eq_comm] at hcanonical

theorem map_projectionName_eq (s : Expr) (ctes : List String) :
    (orStar ((sources s).flatMap (C.sourceProjection ctes))).map projectionName =
      if sources s = [] then ["*"] else (sources s).flatMap (C.sourceNames ctes) := by
  by_cases hempty : sources s = []
  · rw [if_pos hempty, hempty]
    rfl
  · obtain ⟨t, rest, hcase⟩ := List.exists_cons_of_ne_nil hempty
    have hne : (sources s).flatMap (C.sourceProjection ctes) ≠ [] := fun h =>
      sourceProjection_ne_nil ctes t (List.flatMap_eq_nil_iff.mp h t (hcase ▸ List.mem_cons_self))
    rw [if_neg hempty, orStar_of_ne_nil hne, List.map_flatMap]
    rfl

/-- **The output names are determined by how the tables read, and determine it.** -/
theorem projectionNames_eq_iff {s s' : Expr} (hsources : sources s = sources s') :
    (C.qualifiedProjection s).map projectionName = (C.qualifiedProjection s').map projectionName ↔
      C.ReadAlike s (cteNames C.schema.case s) (cteNames C.schema.case s') := by
  rw [qualifiedProjection, qualifiedProjection, ← hsources, map_projectionName_eq, map_projectionName_eq]
  constructor
  · intro h t ht htable
    rw [if_neg (List.ne_nil_of_mem ht), if_neg (List.ne_nil_of_mem ht)] at h
    have hpointwise := eq_of_flatMap_eq (sourceNames_ne_nil _) (sourceNames_ne_nil _)
      (fun a _ hheads => congrArg (List.map projectionName) (sourceProjection_congr fun htable =>
        sourceNames_head_inj htable hheads)) h t ht
    exact sourceNames_head_inj htable (by rw [hpointwise])
  · intro h
    have hsame : (sources s).flatMap (C.sourceNames (cteNames C.schema.case s)) =
        (sources s).flatMap (C.sourceNames (cteNames C.schema.case s')) :=
      List.flatMap_congr fun t ht => congrArg (List.map projectionName) (sourceProjection_congr (h t ht))
    rw [hsame]

/-! ## Refining a stored text -/

section Stored

variable {G : Sqlglot} {d : Dialect} {sql stored : String} {tree : Expr}

/-- What the composer strips a text to that reads as one statement. -/
theorem stripDisplayCap_of_parse {parse : SqlParser} (hblank : sql.toList.all isPySpace = false)
    (hparse : parse sql = .ok [tree]) : C.stripDisplayCap parse sql =
      if tree.cls = .select then .ok (C.stripTree tree) else .error (.notSelect tree.cls.typeName) := by
  rw [stripDisplayCap, if_neg (by rw [hblank]; decide), hparse]

theorem predicateColumns_of_parse {parse : SqlParser} (hparse : parse sql = .ok [tree]) :
    C.predicateColumns parse sql =
      if tree.cls = .select then (C.qualifiedProjection tree).map projectionName else [] := by
  rw [predicateColumns, hparse]

/-- A text that is stripped as a statement reads as one statement. -/
theorem exists_parse_of_strip {parse : SqlParser} {sql' : String} (hblank : sql.toList.all isPySpace = false)
    (hblank' : sql'.toList.all isPySpace = false) (hparse : parse sql = .ok [tree])
    (h : C.stripDisplayCap parse sql' = C.stripDisplayCap parse sql) : ∃ tree', parse sql' = .ok [tree'] := by
  rw [stripDisplayCap_of_parse hblank hparse, stripDisplayCap, if_neg (by rw [hblank']; decide)] at h
  cases hparse' : parse sql' with
  | error e =>
    rw [hparse'] at h
    dsimp only at h
    split at h <;> cases h
  | ok statements =>
    rw [hparse'] at h
    cases statements with
    | nil =>
      dsimp only at h
      split at h <;> cases h
    | cons tree' rest =>
      cases rest with
      | nil => exact ⟨tree', rfl⟩
      | cons _ _ =>
        dsimp only at h
        split at h <;> cases h

/-- Two statements are stripped alike and name the same columns exactly when the composer reads the same. -/
theorem sameStatement_iff {tree' : Expr} :
    (((if tree'.cls = .select then Except.ok (C.stripTree tree') else .error (.notSelect tree'.cls.typeName)) =
        (if tree.cls = .select then Except.ok (C.stripTree tree)
          else .error (CompositionError.notSelect tree.cls.typeName))) ∧
      (if tree'.cls = .select then (C.qualifiedProjection tree').map projectionName else []) =
        (if tree.cls = .select then (C.qualifiedProjection tree).map projectionName else [])) ↔
      C.SameStatement tree tree' := by
  unfold SameStatement
  by_cases hselect : tree.cls = .select
  · rw [if_pos hselect, if_pos hselect, if_pos hselect]
    constructor
    · rintro ⟨hstrip, hnames⟩
      by_cases hselect' : tree'.cls = .select
      · rw [if_pos hselect'] at hstrip hnames
        obtain ⟨hlabel, hkept, htables⟩ := stripTree_eq_iff.mp (Except.ok.inj hstrip).symm
        exact ⟨hlabel, hkept, htables, (projectionNames_eq_iff (sources_eq_of_keptArgs hlabel hkept)).mp hnames.symm⟩
      · rw [if_neg hselect'] at hstrip
        cases hstrip
    · rintro ⟨hlabel, hkept, htables, hcolumns⟩
      have hselect' : tree'.cls = .select := by rw [← hselect, RoseTree.cls, RoseTree.cls, hlabel]
      rw [if_pos hselect', if_pos hselect']
      exact ⟨congrArg Except.ok (stripTree_eq_iff.mpr ⟨hlabel, hkept, htables⟩).symm,
        ((projectionNames_eq_iff (sources_eq_of_keptArgs hlabel hkept)).mpr hcolumns).symm⟩
  · rw [if_neg hselect, if_neg hselect, if_neg hselect]
    constructor
    · rintro ⟨hstrip, -⟩
      by_cases hselect' : tree'.cls = .select
      · rw [if_pos hselect'] at hstrip
        cases hstrip
      · rw [if_neg hselect'] at hstrip
        exact ⟨hselect', CompositionError.notSelect.inj (Except.error.inj hstrip)⟩
    · rintro ⟨hselect', htype⟩
      rw [if_neg hselect', if_neg hselect', htype]
      exact ⟨rfl, rfl⟩

/-- Two texts of which one reads as a statement: the composer does the same on both exactly when the other
still reads as it. -/
theorem sameRefinement_of_parse (hblank : sql.toList.all isPySpace = false)
    (hblank' : stored.toList.all isPySpace = false) (hparse : G.parse .tsql sql = .ok [tree]) :
    C.SameRefinement G stored sql ↔ C.StillReads G tree stored := by
  constructor
  · intro h
    obtain ⟨tree', hparse'⟩ := exists_parse_of_strip hblank hblank' hparse h.predicate
    refine ⟨tree', hparse', sameStatement_iff.mp ⟨?_, ?_⟩⟩
    · rw [← stripDisplayCap_of_parse hblank' hparse', h.predicate, stripDisplayCap_of_parse hblank hparse]
    · rw [← predicateColumns_of_parse hparse', h.columns, predicateColumns_of_parse hparse]
  · rintro ⟨tree', hparse', hsame⟩
    obtain ⟨hstrip, hnames⟩ := sameStatement_iff.mpr hsame
    have hpredicate : C.stripDisplayCap (G.parse .tsql) stored = C.stripDisplayCap (G.parse .tsql) sql := by
      rw [stripDisplayCap_of_parse hblank' hparse', stripDisplayCap_of_parse hblank hparse, hstrip]
    refine ⟨hpredicate, ?_, fun execute cap => ?_⟩
    · rw [predicateColumns_of_parse hparse', predicateColumns_of_parse hparse, hnames]
    · rw [checkScanTruncated, checkScanTruncated, hpredicate]

/-- **The stored text refines as the T-SQL text does** exactly when the deployment runs T-SQL, or the text
written for its dialect still reads as the statement, in T-SQL. -/
theorem sameRefinement_iff (hblank : sql.toList.all isPySpace = false)
    (hwritten : ∀ t, (G.generate d t).toList.all isPySpace = false) (hparse : G.parse .tsql sql = .ok [tree])
    (hstored : G.storedText d sql = some stored) :
    C.SameRefinement G stored sql ↔ d = .tsql ∨ C.StillReads G tree (G.generate d (stripNational d tree)) := by
  by_cases hd : d = .tsql
  · rw [Sqlglot.storedText, if_pos hd] at hstored
    cases hstored
    exact iff_of_true ⟨rfl, rfl, fun _ _ => rfl⟩ (Or.inl hd)
  · rw [Sqlglot.storedText, if_neg hd, Sqlglot.transpileSql, hparse] at hstored
    cases hstored
    rw [sameRefinement_of_parse hblank (hwritten _) hparse, or_iff_right hd]

end Stored

end ComposerEnv

/-! ## A bracketed name -/

section Examples

open Expr

/-- `SELECT TOP 10 [Name] FROM sales.Customer`. -/
def bracketedName : Expr :=
  .ofCls .select [(.limit, .ofCls .limit [(.expression, .ofCls (.literal "10" false))]),
    (.expressions, .ofCls .column [(.this, .ofCls (.identifier "Name" true))]),
    (.from_, .ofCls .fromClause [(.this, tableRef "sales" "Customer" "")])]

/-- The statement in each dialect's quotes. -/
def bracketedText : Dialect → String
  | .tsql => "SELECT TOP 10 [Name] FROM sales.Customer"
  | .mysql => "SELECT `Name` FROM sales.Customer LIMIT 10"
  | .postgres | .sqlite => "SELECT \"Name\" FROM sales.Customer LIMIT 10"

/-- The dialects that read the text: T-SQL reads double quotes and a `LIMIT` as well, and no backquote. -/
def readsText (d : Dialect) (text : String) : Bool :=
  decide (text = bracketedText d) || decide (d = .tsql ∧ text = bracketedText .postgres)

/-- The parsers and the generators on this statement. -/
def quotingSqlglot : Sqlglot where
  parse d text := if readsText d text then .ok [bracketedName] else .error "Invalid expression / Unexpected token"
  generate d _ := bracketedText d

/-- **A bracketed name on MySQL** is stored in backquotes, which the composer cannot read: the turn cannot
be refined. -/
theorem backquoted_not_sameRefinement :
    validateTree salesEnv .tsql {} bracketedName = .ok () ∧ validateTree salesEnv .mysql {} bracketedName = .ok () ∧
    quotingSqlglot.parse .tsql (bracketedText .tsql) = .ok [bracketedName] ∧
    quotingSqlglot.parse .mysql (bracketedText .mysql) = .ok [bracketedName] ∧
    quotingSqlglot.storedText .mysql (bracketedText .tsql) = some (bracketedText .mysql) ∧
    salesComposer.stripDisplayCap (quotingSqlglot.parse .tsql) (bracketedText .mysql) =
      .error (.doesNotParse "Invalid expression / Unexpected token") ∧
    ¬ salesComposer.SameRefinement quotingSqlglot (bracketedText .mysql) (bracketedText .tsql) := by
  have hreads : quotingSqlglot.parse .tsql (bracketedText .tsql) = .ok [bracketedName] := by rfl
  have hfails : salesComposer.stripDisplayCap (quotingSqlglot.parse .tsql) (bracketedText .mysql) =
      .error (.doesNotParse "Invalid expression / Unexpected token") := by rfl
  refine ⟨rfl, rfl, hreads, rfl, rfl, hfails, fun hsame => ?_⟩
  have hstrip := hsame.predicate
  rw [hfails, ComposerEnv.stripDisplayCap_of_parse (by decide) hreads] at hstrip
  cases hstrip

/-- On Postgres the name is in double quotes, which T-SQL reads too. -/
theorem doubleQuoted_sameRefinement :
    salesComposer.SameRefinement quotingSqlglot (bracketedText .postgres) (bracketedText .tsql) := by
  have hwritten : (bracketedText .postgres).toList.all isPySpace = false := by decide
  refine (ComposerEnv.sameRefinement_iff (d := .postgres) (by decide) (fun _ => hwritten)
    (show quotingSqlglot.parse .tsql (bracketedText .tsql) = .ok [bracketedName] from rfl) rfl).mpr (.inr ?_)
  exact ⟨bracketedName, rfl, rfl, rfl, fun _ _ _ => rfl, fun _ _ _ => rfl⟩

end Examples

end LocalSqlAgent
