import LocalSqlAgent.Security.Dialects
import LocalSqlAgent.Security.JoinOnly

/-! # The guard

`validate_sql` of `security.sql_guard`, from the statement list the parser returns: one statement, a
read-only root, no forbidden construct, comment or catalogue name anywhere, the table and column
allowlists, the column policy and the projection rules. `validateTree_ok_iff` splits acceptance of a
statement tree into its passes. -/

namespace LocalSqlAgent

/-- What the guard consults besides the statement. -/
structure GuardEnv where
  /-- The schema lookup. -/
  schema : Schema
  /-- The data sources. -/
  datasources : Datasources
  /-- `node.sql(dialect=...)`. -/
  render : Dialect → Expr → String
  /-- `repr` of a string. -/
  repr : String → String
  /-- `str.strip`. -/
  strip : String → String

/-- The policy one request runs under. -/
structure GuardPolicy where
  /-- The fully denied column names, upper-cased. -/
  denied : List String := []
  /-- `resolve_join_only` of the policy's scoped entries as a function of the executing source, or
  the message it raises; `none` for a policy without scoped entries. -/
  joinOnly : Option (Option String → Except String JoinOnlyRestrictions) := none

/-! ## Node classes -/

/-- `_NAMED_FORBIDDEN_TYPES` and `_forbidden_label`. -/
def forbiddenLabel (C : CaseMaps) (node : Expr) : Option String :=
  match node.cls with
  | .command cmd => some (if cmd = "" then "COMMAND" else C.upper cmd)
  | .insert => some "INSERT"
  | .update => some "UPDATE"
  | .delete => some "DELETE"
  | .drop => some "DROP"
  | .alter => some "ALTER"
  | .create => some "CREATE"
  | .merge => some "MERGE"
  | .truncateTable => some "TRUNCATE"
  | .revoke => some "REVOKE"
  | .execute => some "EXECUTE"
  | .into => some "INTO"
  | _ => none

/-- `_ALLOWED_ROOT_TYPES`. -/
def Cls.allowedRoot : Cls → Bool
  | .select | .union _ | .intersect | .except => true
  | _ => false

/-- `type(node).__name__`. -/
def Cls.typeName : Cls → String
  | .select => "Select"
  | .union _ => "Union"
  | .intersect => "Intersect"
  | .except => "Except"
  | .subquery => "Subquery"
  | .table => "Table"
  | .cte => "CTE"
  | .withClause _ => "With"
  | .tableAlias => "TableAlias"
  | .identifier .. => "Identifier"
  | .column => "Column"
  | .star => "Star"
  | .dot => "Dot"
  | .alias => "Alias"
  | .fromClause => "From"
  | .join .. => "Join"
  | .whereClause => "Where"
  | .group => "Group"
  | .having => "Having"
  | .order => "Order"
  | .ordered _ => "Ordered"
  | .limit => "Limit"
  | .fetch => "Fetch"
  | .offset => "Offset"
  | .distinct => "Distinct"
  | .lateral => "Lateral"
  | .pivot _ => "Pivot"
  | .literal .. => "Literal"
  | .national => "National"
  | .var _ => "Var"
  | .null => "Null"
  | .eq => "EQ"
  | .and => "And"
  | .or => "Or"
  | .not => "Not"
  | .paren => "Paren"
  | .add => "Add"
  | .count => "Count"
  | .anonymous _ => "Anonymous"
  | .func name => name
  | .parameter => "Parameter"
  | .currentUser => "CurrentUser"
  | .sessionUser => "SessionUser"
  | .currentSchema => "CurrentSchema"
  | .objectId => "ObjectId"
  | .currentTimestamp => "CurrentTimestamp"
  | .insert => "Insert"
  | .update => "Update"
  | .delete => "Delete"
  | .drop => "Drop"
  | .alter => "Alter"
  | .create => "Create"
  | .merge => "Merge"
  | .truncateTable => "TruncateTable"
  | .revoke => "Revoke"
  | .execute => "Execute"
  | .into => "Into"
  | .command _ => "Command"
  | .other name => name

/-- `_FORBIDDEN_STATE_NODE_TYPES`. -/
def Cls.readsState : Cls → Bool
  | .parameter | .currentUser | .sessionUser | .currentSchema | .objectId => true
  | _ => false

/-- `_SAFE_ANONYMOUS_FUNCTIONS`. -/
def safeAnonymousFunctions : List String :=
  ["VAR", "VARP", "STDEVP", "STRING_SPLIT", "CHOOSE", "PARSE", "CHECKSUM", "BINARY_CHECKSUM"]

/-- `str.startswith`. -/
def startsWith (s p : String) : Bool := p.toList.isPrefixOf s.toList

/-- `_is_dangerous_identifier`. -/
def isDangerousIdentifier (C : CaseMaps) (dialect : Dialect) (name : String) : Bool :=
  let upper := C.upper name
  startsWith upper "XP_" || startsWith upper "SP_" ||
    upper ∈ ["OPENROWSET", "OPENQUERY", "OPENDATASOURCE"] ||
    upper ∈ dialect.profile.extraDangerousFunctions

/-- `_is_string_literal_operand`. -/
def isStringLiteralOperand : Option Expr → Bool
  | some e =>
    match e.cls with
    | .national | .literal _ true => true
    | _ => false
  | none => false

/-! ## The passes -/

section Passes

variable (E : GuardEnv) (dialect : Dialect)

/-- `quote_tsql_identifier`: brackets, an inner `]` doubled. -/
def quoteTsqlIdentifier (name : String) : String :=
  "[" ++ String.ofList (name.toList.flatMap fun c => if c = ']' then [c, c] else [c]) ++ "]"

/-- `table_reference_sql` of a table. -/
def tableReferenceSql (t : SchemaTable) : String :=
  joinStrings "." ((t.qualifier ++ [t.bare]).map quoteTsqlIdentifier)

/-- The root checks. -/
def checkRoot (tree : Expr) : Except Rejection Unit := do
  refuseSome (forbiddenLabel E.schema.case tree) .forbiddenKeyword
  refuseIf (tree.cls.allowedRoot = false)
    (.policy ("Forbidden keyword detected: only SELECT / WITH / set-operation " ++
      "queries are allowed, got " ++ tree.cls.typeName) .forbiddenStatement tree.cls.typeName)

/-- The allowlist's verdict on a table reference that is no CTE's. -/
def checkAllowlist (rawName : String) (qualifier : List String) : Except Rejection Unit :=
  let tableMatch := matchTableRef E.schema rawName qualifier
  let suggestions := joinStrings ", " (tableMatch.candidates.map tableReferenceSql)
  match tableMatch.status with
  | .resolved => .ok ()
  | .unknown =>
    .error (.refusal ("Forbidden keyword detected: unknown table '" ++ rawName ++
      "' is not in the schema allowlist") .unknownTable rawName)
  | .qualifierMismatch | .multiPartOnly =>
    .error (.refusal ("Forbidden keyword detected: table '" ++
      joinStrings "." (qualifier ++ [rawName]) ++ "' is not in the schema allowlist; did you mean " ++
      suggestions ++ "?") .unknownTable rawName)
  | .ambiguous =>
    .error (.refusal ("Forbidden keyword detected: table '" ++ rawName ++
      "' exists in more than one schema; write one of " ++ suggestions ++ " to say which")
      .ambiguousTable rawName)

/-- A system-catalogue rejection. -/
def catalogueRejection (name : String) : Rejection :=
  .policy ("System catalogue forbidden: " ++ name) .systemCatalogue name

/-- What the main walk checks of a table node. -/
def checkTable (ctes : List String) (node : Expr) : Except Rejection Unit := do
  let C := E.schema.case
  let rawName := node.name
  let db := C.upper node.db
  let nameUpper := C.upper rawName
  refuseIf (isDangerousIdentifier C dialect rawName = true) (.forbiddenKeyword nameUpper)
  refuseIf (db ∈ dialect.profile.systemSchemas) (catalogueRejection db)
  refuseIf (db = "" ∧ nameUpper ∈ dialect.profile.systemSchemas) (catalogueRejection nameUpper)
  refuseIf (dialect.profile.systemNamePrefixes.any (startsWith db) = true) (catalogueRejection db)
  refuseIf (dialect.profile.systemNamePrefixes.any (startsWith nameUpper) = true)
    (catalogueRejection nameUpper)
  -- a table-valued function has no name and is skipped
  if rawName ≠ "" ∧ C.lower rawName ∉ ctes then
    checkAllowlist E rawName (tableRefNameAndQualifier C node).2
  else .ok ()

/-- What the main walk checks of every node. -/
def checkNode (ctes : List String) (node : Expr) : Except Rejection Unit := do
  let C := E.schema.case
  let rendered := E.repr (E.render dialect node)
  refuseSome (forbiddenLabel C node) .forbiddenKeyword
  refuseIf (node.label.comments ≠ [])
    (.correctable ("SQL comments are not allowed: a comment is not " ++
      "executable SQL syntax, so its content is never inspected " ++
      "for keywords -- the comment itself is refused outright.") .other)
  refuseIf (node.cls = .national ∧ dialect.profile.supportsNationalLiteral = false)
    (.correctable ("Forbidden keyword detected: T-SQL national-character literal (" ++ rendered ++
      ") is not valid " ++ dialect.profile.name ++ " syntax -- sqlglot leaves N'...' unchanged " ++
      "under transpilation and its parser accepts it regardless " ++
      "of dialect, so this is refused explicitly rather than " ++
      "left to fail at the database") .other)
  refuseIf (dialect ≠ .tsql ∧ node.cls = .add ∧
      (isStringLiteralOperand (node.arg .this) = true ∨
        isStringLiteralOperand (node.arg .expression) = true))
    (.correctable ("Forbidden keyword detected: '+' with a string-literal operand (" ++ rendered ++
      ") is T-SQL string concatenation, which does not transpile to " ++ dialect.profile.name ++
      " -- this dialect's '+' is exclusively numeric addition and " ++
      "would silently coerce a string operand instead of concatenating it") .other)
  match node.cls with
  | .anonymous name =>
    refuseIf (isDangerousIdentifier C dialect name = true) (.forbiddenKeyword (C.upper name))
  | .table => checkTable E dialect ctes node
  | _ => .ok ()

/-- `_require_single_datasource`. -/
def requireSingleDatasource (tree : Expr) : Except Rejection Unit :=
  let tables := (resolvedTables E.schema tree).map (·.key)
  if tables.length < 2 then .ok ()
  else
    match E.datasources.chooseDatasource tables with
    | .error message => .error (.refusal message .crossDatasource)
    | .ok _ => .ok ()

/-- `_executing_source`: the source the query will run on. -/
def executingSource (tree : Expr) : Option String :=
  match E.datasources.chooseDatasource ((resolvedTables E.schema tree).map (·.key)) with
  | .error _ => none
  | .ok source => source

/-- One column of the column loop: denied names, then the column allowlist for a qualified name. -/
def checkColumn (tree : Expr) (denied : List String) (column : Expr) : Except Rejection Unit :=
  let C := E.schema.case
  let name := column.name
  let qualifier := C.lower column.qualifier
  if name = "" ∨ name = "*" then .ok ()
  else do
    refuseIf (C.upper name ∈ denied)
      (.policy ("Forbidden keyword detected: denied column '" ++ name ++ "'") .deniedColumn name)
    if qualifier = "" then .ok ()
    else
      match aliasLookup (tableAliasMap E.schema tree) qualifier with
      | none => .ok ()
      | some t =>
        refuseIf (C.lower name ∉ E.schema.columnsByTable t)
          (.correctable ("Unknown column '" ++ name ++ "' on table '" ++ t.key ++ "'") .other name
            t.key)

/-- `_resolve_star_tables`: the tables a bare `*` expands to, `none` when a direct source is no
known table. -/
def resolveStarTables (ctes : List String) : Option Expr → Option (List SchemaTable)
  | none => none
  | some select => (directFromSources select).mapM (sourceTable E.schema ctes)

/-- One star under a column-denial policy: expanded and checked, or refused. -/
def checkDeniedStar (tree : Expr) (denied : List String) (star : ExprOcc) :
    Except Rejection Unit :=
  let C := E.schema.case
  let label := match starQualifier star with
    | some column => column.node.qualifier ++ ".*"
    | none => "*"
  let expanded : Option (List SchemaTable) := match starQualifier star with
    | some column =>
      (aliasLookup (tableAliasMap E.schema tree) (C.lower column.node.qualifier)).map ([·])
    | none => resolveStarTables E (cteNames C tree) ((enclosingSelect star).map (·.node))
  match expanded with
  | none => .error (.policy ("Forbidden keyword detected: cannot verify whether '" ++ label ++
      "' exposes a denied column -- name the columns explicitly instead of using '*'")
      .deniedColumn)
  | some tables =>
    let exposed := sortedStrings ((tables.flatMap fun t => E.schema.columnsByTable t).filter
      fun column => C.upper column ∈ denied)
    refuseIf (exposed ≠ []) (.policy ("Forbidden keyword detected: '" ++ label ++
      "' would expose denied column(s): " ++ listRepr E.repr exposed) .deniedColumn
      (if exposed.length = 1 then exposed.head? else none))

/-- The stars, when the policy denies a column outright. -/
def checkDeniedStars (tree : Expr) (denied : List String) : Except Rejection Unit :=
  if denied = [] then .ok () else checkAll (checkDeniedStar E tree denied) (findAll Cls.isStar tree)

/-- The join-only part of the policy, for the source the query will run on. -/
def checkJoinOnly (tree : Expr) (policy : GuardPolicy) : Except Rejection Unit :=
  match policy.joinOnly with
  | none => .ok ()
  | some resolve =>
    match resolve (executingSource E tree) with
    | .error message => .error (.policy
        ("Forbidden keyword detected: the column policy for this key is invalid (" ++ message ++ ")")
        .other)
    | .ok R => if R.byTable = [] then .ok () else enforceJoinOnly E.repr E.schema tree R

/-- The text before the first `(`. -/
def beforeParen (s : String) : String := String.ofList (s.toList.takeWhile (· ≠ '('))

/-- Rules R2 and R3 on one node: no state-reading node, no anonymous function outside the safe
ones. -/
def checkProjection (node : Expr) : Except Rejection Unit := do
  let C := E.schema.case
  refuseIf (node.cls.readsState = true)
    (.forbiddenKeyword (C.upper (E.strip (beforeParen (E.render dialect node)))))
  match node.cls with
  | .anonymous name =>
    let upper := C.upper name
    refuseIf (upper ∉ safeAnonymousFunctions)
      (.policy ("Forbidden keyword detected: " ++ if upper = "" then "ANONYMOUS" else upper)
        .forbiddenStatement (if upper = "" then none else some upper))
  | _ => .ok ()

/-- Rule R1: some table node is no CTE reference. -/
def checkHasTable (tree : Expr) : Except Rejection Unit :=
  let C := E.schema.case
  refuseIf ((findAll Cls.isTable tree).all (fun o => C.lower o.node.name ∈ cteNames C tree) = true)
    (.refusal ("Forbidden keyword detected: query has no table reference -- " ++
      "a warehouse-reading query must select from at least one allowlisted table")
      .noTableReference)

/-- **`validate_sql` on the one statement of a text.** -/
def validateTree (policy : GuardPolicy) (tree : Expr) : Except Rejection Unit := do
  checkRoot E tree
  checkAll (fun o => checkNode E dialect (cteNames E.schema.case tree) o.node) (walk tree)
  requireSingleDatasource E tree
  checkAll (fun o => checkColumn E tree policy.denied o.node) (findAll Cls.isColumn tree)
  checkDeniedStars E tree policy.denied
  checkJoinOnly E tree policy
  checkAll (fun o => checkProjection E dialect o.node) (walk tree)
  checkHasTable E tree

/-- **`validate_sql` on what the parser returns**: exactly one statement, then its tree. -/
def validateStatements (policy : GuardPolicy) (parsed : List (Option Expr)) :
    Except Rejection Unit :=
  match parsed.filterMap id with
  | [] => .error (.correctable "Empty SQL" .other)
  | [tree] => validateTree E dialect policy tree
  | statements =>
    match statements.findSome? (forbiddenLabel E.schema.case) with
    | some label => .error (.forbiddenKeyword label)
    | none => .error (.policy ("Forbidden keyword detected: multiple SQL statements are not " ++
        "allowed (" ++ toString statements.length ++ " statements found)") .forbiddenStatement)

end Passes

/-! ## What acceptance means -/

variable {E : GuardEnv} {dialect : Dialect} {policy : GuardPolicy} {tree : Expr}

/-- **Acceptance, pass by pass.** -/
theorem validateTree_ok_iff :
    validateTree E dialect policy tree = .ok () ↔
      checkRoot E tree = .ok () ∧
      (∀ o, InTree tree o → checkNode E dialect (cteNames E.schema.case tree) o.node = .ok ()) ∧
      requireSingleDatasource E tree = .ok () ∧
      (∀ o ∈ findAll Cls.isColumn tree, checkColumn E tree policy.denied o.node = .ok ()) ∧
      checkDeniedStars E tree policy.denied = .ok () ∧
      checkJoinOnly E tree policy = .ok () ∧
      (∀ o, InTree tree o → checkProjection E dialect o.node = .ok ()) ∧
      checkHasTable E tree = .ok () := by
  simp only [validateTree, check_then_ok_iff, checkAll_ok_iff, mem_walk_iff]

/-- A table node passes the node checks only through `checkTable`. -/
theorem checkTable_of_checkNode {ctes : List String} {node : Expr}
    (h : checkNode E dialect ctes node = .ok ()) (hcls : node.cls = .table) :
    checkTable E dialect ctes node = .ok () := by
  simp only [checkNode, check_then_ok_iff, hcls] at h
  obtain ⟨-, -, -, -, htable⟩ := h
  exact htable

/-- A named table node that is no CTE's passes the allowlist, whatever else it passes. -/
theorem checkAllowlist_of_checkTable {ctes : List String} {node : Expr}
    (h : checkTable E dialect ctes node = .ok ()) (hname : node.name ≠ "")
    (hcte : E.schema.case.lower node.name ∉ ctes) :
    checkAllowlist E node.name (tableRefNameAndQualifier E.schema.case node).2 = .ok () := by
  simp only [checkTable, check_then_ok_iff] at h
  obtain ⟨-, -, -, -, -, hallow⟩ := h
  rwa [if_pos ⟨hname, hcte⟩] at hallow

/-- The allowlist lets a resolved reference through and nothing else. -/
theorem checkAllowlist_ok_iff {name : String} {qualifier : List String} :
    checkAllowlist E name qualifier = .ok () ↔
      (matchTableRef E.schema name qualifier).status = .resolved := by
  unfold checkAllowlist
  simp only
  cases (matchTableRef E.schema name qualifier).status <;> simp

/-! ## A small deployment -/

/-- Two tables of one schema. -/
def salesSchema : Schema where
  case := asciiCase
  tables :=
    [{ key := "sales.Customer", bare := "Customer", qualifier := ["sales"],
       columns := ["ID", "Name"] },
     { key := "sales.Order", bare := "Order", qualifier := ["sales"],
       columns := ["ID", "CustomerID"] }]
  keys_nodup := by decide
  bare_ne_empty := by decide
  columns_ne_nil := by decide

/-- A guard over `salesSchema` with one data source. -/
def salesEnv : GuardEnv where
  schema := salesSchema
  datasources :=
    { default := "default", others := [], sets := fun _ => none, sets_ne_nil := nofun }
  render := fun _ _ => ""
  repr := fun s => "'" ++ s ++ "'"
  strip := id

open Expr in
/-- `SELECT c.Name FROM sales.Customer AS c` is accepted. -/
example : validateTree salesEnv .tsql {}
    (selectFrom [] [columnRef "c" "Name"] (tableRef "sales" "Customer" "c")) = .ok () := by
  rfl

end LocalSqlAgent
