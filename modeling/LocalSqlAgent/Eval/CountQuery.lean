import LocalSqlAgent.Session.RefinementChain
import LocalSqlAgent.Sql.QueryRows

/-! # The count query of the cap check

`eval.capcheck.count_query`: `SELECT COUNT(*) FROM (…) AS q` around a statement, made legal as a derived table.
The `WITH` goes to the outer statement, an `ORDER BY` without a row limit goes, and output columns without a
name or with a repeated one are given names.

* **`nameProjections`**: the loop over the output columns, with the names seen so far.
* **`countTree`**: the edits on the tree.
* **`countQuery`**: the statement, as the tree that is written.
* **`Generator`**: what the generator adds where it writes a derived table. -/

namespace LocalSqlAgent

variable (C : CaseMaps)

/-! ## The edits -/

mutual

/-- `_rightmost`: the last branch of a set operation. -/
def rightmost : Expr → Expr
  | .node l args => if l.cls.isSetOperation then (rightmostAt args).getD (.node l args) else .node l args

/-- The last branch of `tree.args["expression"]`. -/
def rightmostAt : List (Arg × Expr) → Option Expr
  | [] => none
  | (k, c) :: rest => if k = .expression then some (rightmost c) else rightmostAt rest

end

mutual

/-- An edit of the node `_rightmost` returns, in its place. -/
def editRightmost (f : Expr → Expr) : Expr → Expr
  | .node l args => if l.cls.isSetOperation then .node l (editRightmostAt f args) else f (.node l args)

/-- The edit under `expression`. -/
def editRightmostAt (f : Expr → Expr) : List (Arg × Expr) → List (Arg × Expr)
  | [] => []
  | (k, c) :: rest =>
    if k = .expression then (k, editRightmost f c) :: rest else (k, c) :: editRightmostAt f rest

end

/-- `_has_row_limit`. -/
def hasRowLimit (q : Expr) : Bool := limitKeys.any fun k => q.slot k ≠ []

/-- `node.set("order", None)`. -/
def dropOrder (q : Expr) : Expr := q.dropArgs [.order]

/-- `f"_c{index}"`, the index counted from one. -/
def madeUpName (i : ℕ) : String := "_c" ++ toString (i + 1)

/-- The projection under another alias: `set("alias", …)` where the node has one, else `exp.alias_`. -/
def underAlias (name : String) (e : Expr) : Expr :=
  if e.cls = .alias ∨ e.cls = .subquery then e.setSlot .alias [Expr.ident name]
  else .ofCls .alias [(.this, e), (.alias, Expr.ident name)]

/-- The loop of `_name_projections` from a projection on. -/
def nameFrom : ℕ → List String → List Expr → List Expr
  | _, _, [] => []
  | i, seen, p :: ps =>
    if isStarProjection p then p :: nameFrom (i + 1) seen ps
    else if C.lower p.aliasOrName = "" ∨ C.lower p.aliasOrName ∈ seen then
      underAlias (madeUpName i) p :: nameFrom (i + 1) (madeUpName i :: seen) ps
    else p :: nameFrom (i + 1) (C.lower p.aliasOrName :: seen) ps

/-- **`_name_projections`.** -/
def nameProjections (s : Expr) : Expr := s.setSlot .expressions (nameFrom C 0 [] (s.slot .expressions))

/-- The query behind the edits; its `WITH` is out. -/
def countedQuery (tree : Expr) : Expr :=
  let tree := tree.dropArgs [.with_]
  let last := rightmost tree
  let tree :=
    if last.slot .order ≠ [] ∧ hasRowLimit last = false ∧
        (tree.cls.isSetOperation = true ∨ hasRowLimit tree = false) then
      editRightmost dropOrder tree
    else tree
  -- newer releases of the parser put the order of a set operation on its node
  let tree :=
    if tree.cls.isSetOperation = true ∧ tree.slot .order ≠ [] ∧ hasRowLimit tree = false then
      dropOrder tree
    else tree
  if tree.cls = .select then nameProjections C tree else tree

/-- `SELECT COUNT(*) FROM (…) AS q` with a `WITH`. -/
def countOver (withClause : List Expr) (q : Expr) : Expr :=
  .ofCls .select ([(.expressions, .ofCls .count [(.this, .ofCls .star)]),
    (.from_, .ofCls .fromClause [(.this, .ofCls .subquery
      [(.this, q), (.alias, .ofCls .tableAlias [(.this, Expr.ident "q")])])])] ++
    withClause.map (Arg.with_, ·))

/-- **`count_query`** for a parser: the tree of the statement that is written, or the text of the
`ValueError`. The parser fails with `none`; an empty statement is a `none` in its list. -/
def countQuery (parse : String → Option (List (Option Expr))) (sql : String) : Except String Expr :=
  match parse sql with
  | none => .error "cannot build a count query: the SQL does not parse"
  | some [some tree] =>
    if tree.cls = .select ∨ tree.cls.isSetOperation then
      .ok (countOver (tree.slot .with_) (countedQuery C tree))
    else .error "cannot build a count query: not a SELECT"
  | some _ => .error "cannot build a count query: expected exactly one statement"

/-! ## What is written -/

/-- **The generator's part**: the aliases it gives the output columns of a select that it writes as a derived
table under an alias of its own. -/
structure Generator where
  /-- The alias of a column without one, by its place. -/
  label : ℕ → Expr → String
  /-- A column keeps its name. -/
  column : ∀ i e, e.cls = .column → e.name ≠ "" → label i e = e.name
  /-- Every column gets a name. -/
  named : ∀ i e, label i e ≠ ""

/-- The output column as it is written. -/
def Generator.written (G : Generator) (i : ℕ) (p : Expr) : Expr :=
  if isStarProjection p ∨ p.aliasName ≠ "" then p else underAlias (G.label i p) p

/-- The derived table as it is written. -/
def Generator.derived (G : Generator) (q : Expr) : Expr :=
  if q.cls = .select then q.setSlot .expressions ((q.slot .expressions).mapIdx G.written) else q

/-- The query a count statement counts the rows of. -/
def derivedTable (outer : Expr) : Option Expr :=
  (outer.arg .from_).bind fun f => (f.arg .this).bind fun t => t.arg .this

/-- The `WITH` of a count statement. -/
theorem slot_with_countOver (withClause : List Expr) (q : Expr) :
    (countOver withClause q).slot .with_ = withClause := by
  rw [countOver, RoseTree.ofCls, RoseTree.slot, RoseTree.children_node, List.filter_append, List.filter_map]
  have hall : withClause.filter ((fun e : Arg × Expr => decide (e.1 = .with_)) ∘ (Arg.with_, ·)) = withClause :=
    List.filter_eq_self.mpr fun _ _ => rfl
  rw [hall, List.map_append, List.map_map]
  exact List.map_id withClause

theorem derivedTable_countOver (withClause : List Expr) (q : Expr) :
    derivedTable (countOver withClause q) = some q := rfl

end LocalSqlAgent
