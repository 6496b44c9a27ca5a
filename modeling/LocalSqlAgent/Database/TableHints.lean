import Mathlib.Data.List.Dedup
import Mathlib.Data.List.Sort
import LocalSqlAgent.Lib.Checks
import LocalSqlAgent.Lib.Insertions
import LocalSqlAgent.Lib.PyText
import LocalSqlAgent.Security.Dialects
import LocalSqlAgent.Security.TableAllowlist
import LocalSqlAgent.Sql.Scope

/-! # `WITH (NOLOCK)` on every table a T-SQL query reads

`database.table_hints`: the statement is parsed only to find its table references; the hint is
inserted into the original text, one offset per reference, and the result is parsed again and
compared before it is used.

* **`isPhysicalTable`** decides which references take the hint, **`insertionPoint`** where it goes.
* **`references`** lists them, **`verify`** checks the rewritten text.
* **`addNolockHints`** returns the rewritten text, or the original one whenever anything fails.

`sqlglot.parse` is a parameter. An argument that is a flag or a list in the source (`temporary`,
`hints`, `columns`) is a child, or several, under its key. -/

namespace LocalSqlAgent

/-- `NOLOCK_HINT`. -/
def nolockHint : List Char := " WITH (NOLOCK)".toList

/-- One statement as the parser reads it. -/
structure ParsedStatement where
  /-- The statement's tree. -/
  tree : Expr
  /-- `meta["start"]` and `meta["end"]` of an identifier: its first and its last character. -/
  span : ExprOcc → Option (ℕ × ℕ)

/-- `sqlglot.parse(sql, read="tsql")`: the statements of a text, `none` for an empty one among
them; `none` when it raises. -/
abbrev TsqlParse : Type := List Char → Option (List (Option ParsedStatement))

/-- The reasons of `_Unsupported`. -/
inductive HintRefusal where
  /-- `parse_error`. -/
  | parseError
  /-- `not_a_query`. -/
  | notAQuery
  /-- `bad_position`. -/
  | badPosition
  /-- `unsupported_table_clause`. -/
  | unsupportedTableClause
  /-- `verification_failed`. -/
  | verificationFailed
  /-- `unexpected_error`, any other exception. -/
  | unexpectedError
  deriving DecidableEq, Repr

/-- One physical table reference (`_Ref`). -/
structure HintRef where
  /-- The table node. -/
  table : ExprOcc
  /-- Where its hint goes, `none` when it has a hint list. -/
  insertAt : Option ℕ

/-- `node.args.get(key)` as an occurrence. -/
def argOcc (k : Arg) (o : ExprOcc) : Option ExprOcc := (childrenAt k o).head?

/-- The spelling of an identifier and whether it is quoted; `none` for any other class. -/
def Cls.identifier? : Cls → Option (String × Bool)
  | .identifier name quoted => some (name, quoted)
  | _ => none

/-- `table.args.get("hints")` is a non-empty list. -/
def hasHints (e : Expr) : Bool := !(e.slot (.other "hints")).isEmpty

section

variable (C : CaseMaps) (parse : TsqlParse) (sql : List Char)

/-! ## Which references take the hint -/

/-- `_system_schemas`. -/
def hintSystemSchemas : List String := Dialect.tsql.profile.systemSchemas.map C.lower

/-- `_visible_cte_names`: the lower-cased names of the CTEs of every statement around a table. -/
def visibleCteNames (o : ExprOcc) : List String :=
  aliasesOf C (o.ancestors.flatMap fun a => ownCtes a.node)

/-- Whether a reference is the target of `SELECT ... INTO`. -/
def isIntoTarget (o : ExprOcc) : Bool := (o.parent?.map fun p => p.node.cls == .into).getD false

/-- The schema part of a reference is one of the catalogue's. -/
def inSystemSchema (o : ExprOcc) : Bool :=
  ((o.node.arg .db).map fun db =>
    db.cls.identifier?.isSome && decide (C.lower db.name ∈ hintSystemSchemas C)).getD false

/-- A reference is written without schema and catalog. -/
def isUnqualified (o : ExprOcc) : Bool :=
  (o.node.arg .db).isNone && (o.node.arg .catalog).isNone

/-- `_is_physical_table`. -/
def isPhysicalTable (o : ExprOcc) : Bool :=
  match o.node.arg .this with
  | none => false
  | some name =>
    if name.cls.identifier?.isNone then false
    else if (name.arg (.other "temporary")).isSome || (name.arg (.other "global_")).isSome then false
    else if name.name.toList.head? = some '#' ∨ name.name.toList.head? = some '@' then false
    else if isIntoTarget o then false
    else if inSystemSchema C o then false
    else if isUnqualified o ∧ C.lower name.name ∈ visibleCteNames C o then false
    else true

/-! ## Where the hint goes -/

/-- The text at a quoted identifier's position: a bracket or quote on either side. -/
def isQuotedText (text : List Char) : Bool :=
  2 ≤ text.length && (text.head? == some '[' || text.head? == some '"') &&
    (text.getLast? == some ']' || text.getLast? == some '"')

/-- The text at an identifier's position is the identifier's. -/
def spells (text : List Char) (name : String) (quoted : Bool) : Bool :=
  if quoted then isQuotedText text else text == name.toList

/-- `_identifier_end`: the offset one past an identifier, checked against the text. -/
def identifierEnd (st : ParsedStatement) (ident : Option ExprOcc) : Except HintRefusal ℕ := do
  let some i := ident | .error .badPosition
  let some (name, quoted) := i.node.cls.identifier? | .error .badPosition
  let some (start, stop) := st.span i | .error .badPosition
  refuseIf (¬ (start ≤ stop ∧ stop < sql.length)) .badPosition
  refuseIf (spells ((sql.drop start).take (stop + 1 - start)) name quoted = false) .badPosition
  return stop + 1

/-- `max(ends)`. -/
def maxEnd (ends : List ℕ) : Except HintRefusal ℕ :=
  match ends.max? with
  | some e => .ok e
  | none => .error .unexpectedError

/-- The occurrences of the parts of a reference's name. -/
def nameParts (o : ExprOcc) : List ExprOcc := [Arg.catalog, .db, .this].filterMap (argOcc · o)

/-- The end of a reference's alias; nothing when it has none. -/
def aliasEnds (st : ParsedStatement) (o : ExprOcc) : Except HintRefusal (List ℕ) :=
  match argOcc .alias o with
  | none => .ok []
  | some label => do
    refuseIf ((label.node.arg .columns).isSome = true) .unsupportedTableClause
    let stop ← identifierEnd sql st (argOcc .this label)
    return [stop]

/-- `_insertion_point`: after the name, or after the alias. -/
def insertionPoint (st : ParsedStatement) (o : ExprOcc) : Except HintRefusal ℕ := do
  refuseIf ((o.node.arg (.other "sample")).isSome ∨ (o.node.arg (.other "version")).isSome)
    .unsupportedTableClause
  let ends ← (nameParts o).mapM fun part => identifierEnd sql st (some part)
  let labels ← aliasEnds sql st o
  maxEnd (ends ++ labels)

/-! ## The references of a text -/

/-- The physical tables of a statement, depth first. -/
def physicalTables (st : ParsedStatement) : List ExprOcc :=
  (preorder st.tree).filter fun o => o.node.cls.isTable && isPhysicalTable C o

/-- One reference with the place of its hint. -/
def referenceAt (st : ParsedStatement) (o : ExprOcc) : Except HintRefusal HintRef :=
  if hasHints o.node then .ok ⟨o, none⟩
  else do
    let offset ← insertionPoint sql st o
    return ⟨o, some offset⟩

/-- `_references`. -/
def references (statements : List ParsedStatement) : Except HintRefusal (List HintRef) :=
  (statements.flatMap fun st => (physicalTables C st).map fun o => (st, o)).mapM fun t =>
    referenceAt sql t.1 t.2

/-- `isinstance(statement, exp.Query)`. -/
def isQueryClass : Cls → Bool
  | .select | .union _ | .intersect | .except | .subquery => true
  | _ => false

/-- `_parse`: the statements of a text, all of them queries. -/
def parseQueries : Except HintRefusal (List ParsedStatement) := do
  let some parsed := parse sql | .error .parseError
  let statements := parsed.reduceOption
  refuseIf (statements.isEmpty = true) .notAQuery
  refuseIf (¬ statements.all fun st => isQueryClass st.tree.cls) .notAQuery
  return statements

/-! ## The check of the rewritten text -/

/-- `_identity`: the parts of a reference and its alias, lower-cased. -/
def identity (o : ExprOcc) : List String :=
  ([Arg.catalog, .db, .this].map fun k =>
    ((o.node.arg k).map fun p => if p.cls.identifier?.isSome then C.lower p.name else "").getD "") ++
  [((o.node.arg .alias).map fun label => C.lower label.name).getD ""]

/-- `_carries_nolock`. -/
def carriesNolock (e : Expr) : Bool :=
  (e.slot (.other "hints")).any fun hint =>
    hint.cls == .other "WithTableHint" &&
      (hint.slot .expressions).any fun v => C.upper v.name == "NOLOCK"

/-- The check of one reference before and after. -/
def verifyReference (pair : HintRef × HintRef) : Except HintRefusal Unit := do
  refuseIf (hasHints pair.2.table.node = false) .verificationFailed
  refuseIf (pair.1.insertAt.isSome ∧ carriesNolock C pair.2.table.node = false) .verificationFailed

/-- `_verify`. -/
def verify (rewritten : List Char) (before : List HintRef) : Except HintRefusal Unit := do
  let statements ← parseQueries parse rewritten
  let after ← references C rewritten statements
  refuseIf ((after.map fun r => identity C r.table) ≠ before.map fun r => identity C r.table)
    .verificationFailed
  checkAll (verifyReference C) (before.zip after)

/-! ## The rewriter -/

/-- The distinct offsets to insert at, the last one first. -/
def hintInsertions (refs : List HintRef) : List ℕ :=
  (refs.filterMap (·.insertAt)).dedup.insertionSort (· ≥ ·)

/-- The text with the hint inserted at some offsets, in the order given. -/
def withHints (insertions : List ℕ) : List Char := insertions.foldl (insertOne nolockHint) sql

/-- The body of `add_nolock_hints`. -/
def hintedText : Except HintRefusal (List Char) := do
  let statements ← parseQueries parse sql
  let refs ← references C sql statements
  if hintInsertions refs = [] then
    return sql
  verify C parse (withHints sql (hintInsertions refs)) refs
  return withHints sql (hintInsertions refs)

/-- **`add_nolock_hints`**: the text with its hints, or the text itself when it is blank or anything
in the body raises. -/
def addNolockHints : List Char :=
  if strip sql = [] then sql
  else
    match hintedText C parse sql with
    | .ok text => text
    | .error _ => sql

end

end LocalSqlAgent
