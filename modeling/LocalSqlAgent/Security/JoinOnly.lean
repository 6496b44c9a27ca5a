import LocalSqlAgent.Database.Routing
import LocalSqlAgent.Lib.Checks
import LocalSqlAgent.Security.Rejection
import LocalSqlAgent.Security.TableAllowlist

/-! # Join-only columns

`_enforce_join_only` of `security.sql_guard`: a restricted column may appear as one side of
`col = col` in a `JOIN ... ON` and nowhere else. The check re-derives name resolution from each
select's direct `FROM`/`JOIN` sources. -/

namespace LocalSqlAgent

/-! ## Restrictions -/

/-- **`JoinOnlyRestrictions`**: for each table key, its restricted columns (case-folded) and the
policy entry restricting each. No entry is the empty text. -/
structure JoinOnlyRestrictions where
  /-- `by_table`. -/
  byTable : List (String × List (String × String))
  /-- `ScopedColumn.entry` is never empty. -/
  entry_ne_empty : ∀ t ∈ byTable, ∀ c ∈ t.2, c.2 ≠ ""

namespace JoinOnlyRestrictions

variable (R : JoinOnlyRestrictions)

/-- `by_table.get(table, {})`. -/
def columnsOf (table : String) : List (String × String) := (R.byTable.lookup table).getD []

/-- `names`: every restricted column name. -/
def names : List String := R.byTable.flatMap fun t => t.2.map (·.1)

/-- `restrictions.entry(table, column)`: the policy entry restricting a column on a table. -/
def entry (C : CaseMaps) (table : SchemaTable) (column : String) : Option String :=
  (R.columnsOf table.key).lookup (C.casefold column)

/-- Whether a table has a restricted column at all. -/
def restricts (table : SchemaTable) : Bool := R.columnsOf table.key ≠ []

theorem entry_lower (C : CaseMaps) (table : SchemaTable) (column : String) :
    R.entry C table (C.lower column) = R.entry C table column := by
  rw [entry, C.casefold_lower, entry]

end JoinOnlyRestrictions

/-! ## A select's sources as the guard collects them -/

/-- `_direct_from_sources`: the expressions directly in a select's `FROM` and `JOIN` clauses. -/
def directFromSources (select : Expr) : List Expr :=
  ((select.arg .from_).bind (·.arg .this)).toList ++
    (select.slot .joins).filterMap (·.arg .this)

/-- The lower-cased name a source is addressed by: a table's alias or else its name, any other
source's alias. -/
def sourceLabel (C : CaseMaps) (source : Expr) : String :=
  C.lower (if source.cls = .table then
    (if source.aliasName = "" then source.name else source.aliasName) else source.aliasName)

/-- The table a source is, when it is a table node that resolves. -/
def sourceTable (S : Schema) (ctes : List String) (source : Expr) : Option SchemaTable :=
  if source.cls = .table then resolveTableName S ctes source else none

/-- `_select_scope`'s `names`: each nonempty label with the table behind it. -/
def scopeNames (S : Schema) (ctes : List String) (select : Expr) :
    List (String × Option SchemaTable) :=
  ((directFromSources select).map fun source =>
    (sourceLabel S.case source, sourceTable S ctes source)).filter (·.1 ≠ "")

/-- `_select_scope`'s `tables`. -/
def scopeTables (S : Schema) (ctes : List String) (select : Expr) : List SchemaTable :=
  (directFromSources select).filterMap (sourceTable S ctes)

/-- The tables behind a qualifier in the nearest select that has it; `none` when no select does. -/
def qualifiedTables (S : Schema) (ctes : List String) (qualifier : String) :
    List Expr → Option (List SchemaTable)
  | [] => none
  | select :: outer =>
    let names := scopeNames S ctes select
    if qualifier ∈ names.map (·.1) then
      some ((names.filter (·.1 = qualifier)).filterMap (·.2))
    else qualifiedTables S ctes qualifier outer

/-- The restricted tables an unqualified name may mean: the search moves outwards while no table of
the select has the column. -/
def unqualifiedTables (S : Schema) (ctes : List String) (R : JoinOnlyRestrictions)
    (name : String) : List Expr → List SchemaTable
  | [] => []
  | select :: outer =>
    let tables := scopeTables S ctes select
    match tables.filter fun t => (R.entry S.case t name).isSome with
    | hit :: hits => hit :: hits
    | [] =>
      if tables.any fun t => name ∈ S.columnsByTable t then []
      else unqualifiedTables S ctes R name outer

/-- The tables of a list in the order of their keys. -/
def sortedTables (tables : List SchemaTable) : List SchemaTable :=
  tables.insertionSort fun a b => a.key ≤ b.key

/-- `_restricted_tables_of`: the restricted tables a column may be a reference to. -/
def restrictedTablesOf (S : Schema) (tree : Expr) (R : JoinOnlyRestrictions) (column : ExprOcc) :
    List SchemaTable :=
  let ctes := cteNames S.case tree
  let name := S.case.lower column.node.name
  let qualifier := S.case.lower column.node.qualifier
  let scopes := (enclosingSelects column).map (·.node)
  let restricted := fun t : SchemaTable => (R.entry S.case t name).isSome
  if qualifier ≠ "" then
    match qualifiedTables S ctes qualifier scopes with
    | some tables => tables.filter restricted
    -- a set operation's `ORDER BY`: the query-wide alias map
    | none => (aliasLookup (tableAliasMap S tree) qualifier).toList.filter restricted
  else if scopes = [] then (sortedTables (resolvedTables S tree)).filter restricted
  else unqualifiedTables S ctes R name scopes

/-! ## The one allowed place -/

/-- Climb from an equality through `AND` and parentheses to a join's `ON`. -/
def climbsToOn : List (Frame NodeLabel Arg) → Bool
  | [] => false
  | f :: above =>
    match f.parent.cls with
    | .and | .paren => climbsToOn above
    | .join .. => f.key = .on
    | _ => false

/-- `_is_join_key_operand`: the column is one side of `col = col` that is a conjunct of a join's
`ON`. -/
def isJoinKeyOperand (column : ExprOcc) : Bool :=
  match column.frames with
  | [] => false
  | f :: above =>
    f.parent.cls = .eq && (f.parent.arg .this).any (·.cls = .column) &&
      (f.parent.arg .expression).any (·.cls = .column) && climbsToOn above

/-! ## Enforcement -/

/-- `_JOIN_ONLY_ADVICE`. -/
def joinOnlyAdvice : String :=
  "it may only be used in JOIN ... ON a.col = b.col (an equality between two " ++
  "columns); remove it from the SELECT list, WHERE, GROUP BY, ORDER BY, HAVING, " ++
  "function arguments and USING()"

/-- `_join_only_rejection`. -/
def joinOnlyRejection (entry table column : String) (unqualified : Bool := false) : Rejection :=
  .refusal ("Forbidden keyword detected: column '" ++ column ++ "' of table '" ++ table ++
    "' is restricted (policy entry '" ++ entry ++ "'): " ++ joinOnlyAdvice ++
    if unqualified then
      "; if this column belongs to another table, qualify it with that table's alias"
    else "") .joinOnlyColumn entry

/-- The list display of strings in an f-string. -/
def listRepr (repr : String → String) (l : List String) : String :=
  "[" ++ joinStrings ", " (l.map repr) ++ "]"

/-- One column of the column loop. -/
def checkJoinOnlyColumn (S : Schema) (tree : Expr) (R : JoinOnlyRestrictions) (column : ExprOcc) :
    Except Rejection Unit :=
  let name := column.node.name
  if name = "" ∨ name = "*" ∨ S.case.lower name ∉ R.names then .ok ()
  else
    match restrictedTablesOf S tree R column with
    | [] => .ok ()
    | table :: _ => refuseIf (isJoinKeyOperand column = false)
        (joinOnlyRejection ((R.entry S.case table name).getD name) table.key name
          (column.node.qualifier = ""))

/-- One join of the join loop: names in `USING (...)` and `NATURAL JOIN`. -/
def checkJoinOnlyJoin (S : Schema) (tree : Expr) (R : JoinOnlyRestrictions) (join : ExprOcc) :
    Except Rejection Unit :=
  match enclosingSelect join with
  | none => .ok ()
  | some select => do
    let tables := scopeTables S (cteNames S.case tree) select.node
    checkAll (fun ident : Expr =>
      if S.case.lower ident.name ∈ R.names then
        checkAll (fun t => refuseSome (R.entry S.case t ident.name) fun entry =>
          joinOnlyRejection entry t.key ident.name) tables
      else .ok ()) (join.node.slot .using_)
    match join.node.cls with
    | .join method _ _ =>
      if S.case.upper method = "NATURAL" then
        checkAll (fun t : SchemaTable => refuseSome (R.columnsOf t.key).head? fun (column, entry) =>
          .refusal ("Forbidden keyword detected: NATURAL JOIN would join on every " ++
            "column the tables share, including restricted column '" ++ column ++
            "' of table '" ++ t.key ++ "' (policy entry '" ++ entry ++
            "'): write an explicit JOIN ... ON a.col = b.col instead") .joinOnlyColumn entry) tables
      else .ok ()
    | _ => .ok ()

/-- What a star may expose: its label, the tables it expands to and whether a source could not be
enumerated. -/
structure StarExpansion where
  /-- `*` or `alias.*`. -/
  label : String
  /-- The tables. -/
  tables : List SchemaTable
  /-- A source that is neither a known table, a CTE nor a derived table. -/
  unresolved : Bool

/-- The expansion of a bare `*` over a select's direct sources. -/
def expandBareStar (S : Schema) (ctes : List String) : Option Expr → StarExpansion
  | none => ⟨"*", [], true⟩
  | some select =>
    ⟨"*", scopeTables S ctes select, (directFromSources select).any fun source =>
      if source.cls = .table then
        (resolveTableName S ctes source).isNone && S.case.lower source.name ∉ ctes
      else source.cls ≠ .subquery⟩

/-- The column a star is the `this` of, when it is written `alias.*`. -/
def starQualifier (star : ExprOcc) : Option ExprOcc :=
  match star.parent? with
  | some parent => if parent.node.cls = .column ∧ parent.node.qualifier ≠ "" then some parent else none
  | none => none

/-- The expansion of a star. -/
def expandStar (S : Schema) (tree : Expr) (star : ExprOcc) : StarExpansion :=
  let ctes := cteNames S.case tree
  match starQualifier star with
  | some column =>
    let qualifier := S.case.lower column.node.qualifier
    ⟨column.node.qualifier ++ ".*",
      match qualifiedTables S ctes qualifier ((enclosingSelects column).map (·.node)) with
      | some tables => tables
      | none => (aliasLookup (tableAliasMap S tree) qualifier).toList, false⟩
  | none => expandBareStar S ctes ((enclosingSelect star).map (·.node))

/-- `COUNT(*)` reads no column value. -/
def isCountStar (star : ExprOcc) : Bool := star.parent?.any (·.node.cls = .count)

/-- One star of the star loop. -/
def checkJoinOnlyStar (repr : String → String) (S : Schema) (tree : Expr)
    (R : JoinOnlyRestrictions) (star : ExprOcc) : Except Rejection Unit :=
  if isCountStar star = true then .ok ()
  else
    let expansion := expandStar S tree star
    let entries := sortedStrings
      ((expansion.tables.dedup.flatMap fun t => (R.columnsOf t.key).map (·.2)).dedup)
    do
      refuseIf (entries ≠ []) (.refusal ("Forbidden keyword detected: '" ++ expansion.label ++
        "' would expose restricted column(s) " ++ listRepr repr entries ++
        ": name the columns instead of using '*' and leave those out; " ++
        "they may only be used in JOIN ... ON a.col = b.col") .joinOnlyColumn
        (if entries.length = 1 then entries.head? else none))
      refuseIf (expansion.unresolved = true) (.refusal
        ("Forbidden keyword detected: cannot verify whether '" ++ expansion.label ++
          "' exposes a restricted column -- name the columns explicitly instead of using '*'")
        .joinOnlyColumn)

/-- **`_enforce_join_only`**: the column loop, the join loop, the star loop. -/
def enforceJoinOnly (repr : String → String) (S : Schema) (tree : Expr)
    (R : JoinOnlyRestrictions) : Except Rejection Unit := do
  checkAll (checkJoinOnlyColumn S tree R) (findAll Cls.isColumn tree)
  checkAll (checkJoinOnlyJoin S tree R) (findAll Cls.isJoin tree)
  checkAll (checkJoinOnlyStar repr S tree R) (findAll Cls.isStar tree)

end LocalSqlAgent
