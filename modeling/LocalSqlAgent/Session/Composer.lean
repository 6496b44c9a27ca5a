import LocalSqlAgent.Lib.PyText
import LocalSqlAgent.Security.ValidateSql

/-! # The refinement composer

`session.composer`: a follow-up question ("among those") reads the previous turn's rows through a CTE
`_prev`. `strip_display_cap` rewrites the previous statement to the rows behind it,
`build_capped_predicate` caps them again, `compose_refinement_sql` puts the model's outer query after
the CTE. Statements are parse trees here; the order of the keys of a node means nothing, so a rewritten
argument stands last. -/

namespace LocalSqlAgent

/-! ## Rewriting arguments -/

namespace RoseTree

/-- `tree.set(key, None)` for each key. -/
def dropArgs (t : Expr) (ks : List Arg) : Expr :=
  .node t.label (t.children.filter fun e => e.1 ∉ ks)

/-- `tree.set(key, nodes)`. -/
def setSlot (t : Expr) (k : Arg) (nodes : List Expr) : Expr :=
  .node t.label ((t.children.filter fun e => e.1 ≠ k) ++ nodes.map fun n => (k, n))

end RoseTree

theorem slot_filter_of_mem {l : NodeLabel} {cs : List (Arg × Expr)} {k : Arg}
    {keep : Arg × Expr → Bool} (hkeep : ∀ e ∈ cs, e.1 = k → keep e = true) :
    (RoseTree.node l (cs.filter keep)).slot k = (RoseTree.node l cs).slot k := by
  simp only [RoseTree.slot, RoseTree.children_node, List.filter_filter]
  congr 1
  refine List.filter_congr fun e he => ?_
  by_cases hk : e.1 = k
  · simp [hk, hkeep e he hk]
  · simp [hk]

theorem slot_dropArgs_of_mem {t : Expr} {ks : List Arg} {k : Arg} (h : k ∈ ks) :
    (t.dropArgs ks).slot k = [] := by
  rw [RoseTree.dropArgs, RoseTree.slot, RoseTree.children_node, List.filter_filter,
    List.map_eq_nil_iff, List.filter_eq_nil_iff]
  rintro ⟨k', c⟩ _ hboth
  simp only [Bool.and_eq_true, decide_eq_true_iff] at hboth
  exact hboth.2 (hboth.1 ▸ h)

theorem slot_dropArgs_of_not_mem {t : Expr} {ks : List Arg} {k : Arg} (h : k ∉ ks) :
    (t.dropArgs ks).slot k = t.slot k := by
  obtain ⟨l, cs⟩ := t
  refine slot_filter_of_mem fun e _ hk => ?_
  rw [decide_eq_true_iff, hk]
  exact h

theorem slot_setSlot_self {t : Expr} {k : Arg} {nodes : List Expr} :
    (t.setSlot k nodes).slot k = nodes := by
  rw [RoseTree.setSlot, RoseTree.slot, RoseTree.children_node, List.filter_append,
    List.filter_filter]
  have hold : t.children.filter (fun e => decide (e.1 = k) && decide (e.1 ≠ k)) = [] := by
    rw [List.filter_eq_nil_iff]
    intro e _
    simp
  rw [hold, List.nil_append, List.filter_map, List.map_map]
  have hall : nodes.filter ((fun e : Arg × Expr => decide (e.1 = k)) ∘ fun n => (k, n)) = nodes := by
    rw [List.filter_eq_self]
    intro n _
    simp
  rw [hall]
  exact List.map_id nodes

theorem slot_setSlot_of_ne {t : Expr} {k k' : Arg} {nodes : List Expr} (h : k' ≠ k) :
    (t.setSlot k nodes).slot k' = t.slot k' := by
  rw [RoseTree.setSlot, RoseTree.slot, RoseTree.children_node, List.filter_append,
    List.filter_filter, List.filter_map]
  have hnew : nodes.filter ((fun e : Arg × Expr => decide (e.1 = k')) ∘ fun n => (k, n)) = [] := by
    rw [List.filter_eq_nil_iff]
    intro n _
    simpa using Ne.symm h
  rw [hnew, List.map_nil, List.append_nil, RoseTree.slot]
  congr 1
  refine List.filter_congr fun e _ => ?_
  by_cases hk : e.1 = k'
  · simp [hk, h]
  · simp [hk]

/-! ## The composer -/

/-- Why a composition fails. -/
inductive CompositionError where
  | noSql
  | doesNotParse (error : String)
  | notSingle (found : Nat)
  | notSelect (typeName : String)
  | outerDefinesWith
  deriving DecidableEq, Repr

/-- The message of `CompositionError`. -/
def CompositionError.message : CompositionError → String
  | .noSql => "Cannot compose a refinement: previous turn has no SQL"
  | .doesNotParse error => "Previous turn's SQL does not parse: " ++ error
  | .notSingle found => "Previous turn's SQL is not a single statement (" ++ toString found ++
      " found) -- cannot compose a refinement over it"
  | .notSelect typeName => "Previous turn's SQL root is " ++ typeName ++
      ", not a SELECT/WITH query -- cannot compose a refinement over it"
  | .outerDefinesWith => "Model-generated outer query must not define its own WITH clause " ++
      "-- '_prev' is defined exactly once by the composer"

/-- What the composer reads: the allowlist, and which names `exp.to_identifier` quotes. -/
structure ComposerEnv where
  /-- `TABLE_COLUMNS` and its lookup. -/
  schema : Schema
  /-- The name is written in quotes. -/
  quoted : String → Bool

/-- What `sqlglot.parse` makes of a text: the error it raises, or one tree for each statement. -/
abbrev SqlParser : Type := String → Except String (List Expr)

namespace ComposerEnv

variable (C : ComposerEnv)

/-- `exp.to_identifier`. -/
def toIdentifier (name : String) : Expr := .ofCls (.identifier name (C.quoted name))

/-- `exp.column(column, table=alias).as_(f"{alias}_{column}")`. -/
def projectedColumn (source column : String) : Expr :=
  .ofCls .alias
    [(.this, .ofCls .column [(.this, C.toIdentifier column), (.table, C.toIdentifier source)]),
     (.alias, C.toIdentifier (source ++ "_" ++ column))]

/-- `exp.Column(this=exp.Star(), table=exp.to_identifier(alias))`. -/
def qualifiedStar (source : String) : Expr :=
  .ofCls .column [(.this, .ofCls .star), (.table, C.toIdentifier source)]

/-- The sources of a select: its `FROM` and its joins. -/
def sources (tree : Expr) : List Expr :=
  ((tree.arg .from_).bind (·.arg .this)).toList ++
    (tree.slot .joins).filterMap (·.arg .this)

/-- The projections of one source. -/
def sourceProjection (ctes : List String) (source : Expr) : List Expr :=
  if source.cls = .table then
    match resolveTableName C.schema ctes source with
    | none => [C.qualifiedStar source.aliasOrName]
    | some t => t.columns.map (C.projectedColumn source.aliasOrName)
  else [.ofCls .star]

/-- `projections or [exp.Star()]`. -/
def orStar (projections : List Expr) : List Expr :=
  if projections.isEmpty then [.ofCls .star] else projections

/-- `_qualified_projection`. -/
def qualifiedProjection (tree : Expr) : List Expr :=
  orStar ((sources tree).flatMap (C.sourceProjection (cteNames C.schema.case tree)))

/-- The arguments `strip_display_cap` clears before it projects. -/
def clearedArgs : List Arg := [.limit, .order, .group, .distinct]

/-- The rewriting of `strip_display_cap`: the cap, the order, the grouping and the `DISTINCT` are
cleared and the select list is replaced, read off the tree cleared so far. -/
def stripTree (tree : Expr) : Expr :=
  let cleared := tree.dropArgs clearedArgs
  cleared.setSlot .expressions (C.qualifiedProjection cleared)

/-- **`strip_display_cap`**, up to writing the tree out. -/
def stripDisplayCap (parse : SqlParser) (sql : String) : Except CompositionError Expr :=
  if sql.toList.all isPySpace then .error .noSql
  else
    match parse sql with
    | .error e => .error (.doesNotParse e)
    | .ok [tree] =>
      if tree.cls = .select then .ok (C.stripTree tree) else .error (.notSelect tree.cls.typeName)
    | .ok statements => .error (.notSingle statements.length)

/-- **What a successful strip says**: the text is one select, and the result is that select
rewritten. -/
theorem stripDisplayCap_eq_ok_iff {parse : SqlParser} {sql : String} {body : Expr} :
    C.stripDisplayCap parse sql = .ok body ↔
      sql.toList.all isPySpace = false ∧
        ∃ tree, parse sql = .ok [tree] ∧ tree.cls = .select ∧ C.stripTree tree = body := by
  rw [stripDisplayCap]
  split
  · rename_i hblank
    simp [hblank]
  · rename_i hblank
    rw [Bool.not_eq_true] at hblank
    rw [and_iff_right hblank]
    split
    · rename_i e hparse
      simp [hparse]
    · rename_i tree hparse
      by_cases hcls : tree.cls = .select
      · simp [hparse, hcls]
      · simp [hparse, hcls]
    · rename_i statements hmany hparse
      constructor
      · nofun
      · rintro ⟨tree, htree, -⟩
        rw [hparse, Except.ok.injEq] at htree
        exact absurd htree (hmany tree)

/-- The literal `TOP cap`. -/
def capLimit (cap : Nat) : Expr :=
  .ofCls .limit [(.expression, .ofCls (.literal (toString cap) false))]

/-- `build_capped_predicate`: the rows behind the previous statement, at most `cap` of them. -/
def cappedPredicate (cap : Nat) (prev : Expr) : Expr :=
  (C.stripTree prev).setSlot .limit [capLimit cap]

/-- The name `_prev`. -/
def prevAlias : Expr := .ofCls .tableAlias [(.this, Expr.ident "_prev")]

/-- The CTE `_prev AS (body)`. -/
def prevCte (body : Expr) : Expr := .ofCls .cte [(.this, body), (.alias, prevAlias)]

/-- The clause `WITH _prev AS (body)`. -/
def prevWith (body : Expr) : Expr := .ofCls (.withClause false) [(.expressions, prevCte body)]

/-- **`compose_refinement_sql`** on parse trees: the outer query under `WITH _prev AS (…)`. -/
def composeRefinement (cap : Nat) (prev outer : Expr) : Except CompositionError Expr :=
  if outer.slot .with_ ≠ [] then .error .outerDefinesWith
  else if prev.cls ≠ .select then .error (.notSelect prev.cls.typeName)
  else .ok (outer.setSlot .with_ [prevWith (C.cappedPredicate cap prev)])

end ComposerEnv

end LocalSqlAgent
