import LocalSqlAgent.Sql.Tree

/-! # What a select's clauses do to its rows

A select reads the rows of its `FROM`, joins and `WHERE`; its other clauses group, filter, project,
deduplicate, order and cut them. What each clause means is a parameter (`ClauseSemantics`): only the
order in which they apply is fixed here. -/

namespace LocalSqlAgent

/-- The arguments of a select that act on its rows once they have been read. -/
def displayArgs : List Arg :=
  [.expressions, .distinct, .group, .having, .order, .limit, .offset]

/-- The other arguments: the `FROM`, the joins, the `WHERE`, the `WITH`. -/
def restArgs (s : Expr) : List (Arg × Expr) := s.children.filter fun e => e.1 ∉ displayArgs

/-- The expression computes on one row: a star, a column, or a column under a name. -/
def IsPlain (e : Expr) : Prop :=
  e.cls = .star ∨ e.cls = .column ∨
    (e.cls = .alias ∧ ∃ c, e.arg .this = some c ∧ c.cls = .column)

/-- **A meaning for every clause.** -/
structure ClauseSemantics (Row Out : Type) where
  /-- The rows of the `FROM`, the joins and the `WHERE`. -/
  rows : List (Arg × Expr) → List Row
  /-- Whether a select list aggregates. -/
  aggregates : List Expr → Bool
  /-- A list of plain expressions does not. -/
  plain : ∀ es, (∀ e ∈ es, IsPlain e) → aggregates es = false
  /-- `GROUP BY`. -/
  group : List Expr → List Row → List (List Row)
  /-- `HAVING`. -/
  having : List Expr → List Row → Bool
  /-- The select list. -/
  project : List Expr → List Row → Out
  /-- `DISTINCT`. -/
  distinct : List Expr → List Out → List Out
  /-- `ORDER BY`. -/
  order : List Expr → List Out → List Out
  /-- `OFFSET`. -/
  offset : List Expr → List Out → List Out
  /-- `TOP`, `LIMIT`, `FETCH`. -/
  limit : List Expr → List Out → List Out

/-- Apply a clause when it is there. -/
def whenGiven {β : Type} (clause : List Expr) (f : List Expr → β → β) (x : β) : β :=
  if clause.isEmpty then x else f clause x

namespace ClauseSemantics

variable {Row Out : Type} (sem : ClauseSemantics Row Out)

/-- The groups a select projects: its rows one by one, unless it aggregates. -/
def groups (s : Expr) : List (List Row) :=
  let rows := sem.rows (restArgs s)
  if (s.slot .group).isEmpty && (s.slot .having).isEmpty && !sem.aggregates (s.slot .expressions)
  then rows.map fun r => [r]
  else sem.group (s.slot .group) rows

/-- **What a select returns.** -/
def eval (s : Expr) : List Out :=
  let kept := whenGiven (s.slot .having) (fun es gs => gs.filter (sem.having es)) (sem.groups s)
  whenGiven (s.slot .limit) sem.limit
    (whenGiven (s.slot .offset) sem.offset
      (whenGiven (s.slot .order) sem.order
        (whenGiven (s.slot .distinct) sem.distinct
          (kept.map (sem.project (s.slot .expressions))))))

/-- **A select that neither groups nor filters afterwards** returns its rows one by one, ordered and
cut as its last clauses say. -/
theorem eval_of_plain {s : Expr} (hgroup : s.slot .group = []) (hhaving : s.slot .having = [])
    (hplain : ∀ e ∈ s.slot .expressions, IsPlain e) (hdistinct : s.slot .distinct = [])
    (horder : s.slot .order = []) :
    sem.eval s = whenGiven (s.slot .limit) sem.limit (whenGiven (s.slot .offset) sem.offset
      ((sem.rows (restArgs s)).map fun r => sem.project (s.slot .expressions) [r])) := by
  have haggregates : sem.aggregates (s.slot .expressions) = false := sem.plain _ hplain
  have hgroups : sem.groups s = (sem.rows (restArgs s)).map fun r => [r] := by
    simp [groups, hgroup, hhaving, haggregates]
  have habsent : ∀ {β : Type} (f : List Expr → β → β) (x : β), whenGiven [] f x = x :=
    fun _ _ => rfl
  rw [eval, hhaving, hdistinct, horder, habsent, habsent, habsent, hgroups, List.map_map]
  rfl

end ClauseSemantics

/-- A meaning in which a `HAVING` keeps nothing, an `OFFSET` skips everything and no other clause
does anything to the one row there is. -/
def hideAll : ClauseSemantics Unit Unit where
  rows _ := [()]
  aggregates _ := false
  plain _ _ := rfl
  group _ rows := [rows]
  having _ _ := false
  project _ _ := ()
  distinct _ out := out
  order _ out := out
  offset _ _ := []
  limit _ out := out

/-- Under `hideAll` a `HAVING` or an `OFFSET` shows. -/
theorem hideAll_eval {s : Expr} (h : s.slot .having ≠ [] ∨ s.slot .offset ≠ []) :
    hideAll.eval s = [] := by
  have hhidden : whenGiven (s.slot .offset) hideAll.offset
      (whenGiven (s.slot .order) hideAll.order (whenGiven (s.slot .distinct) hideAll.distinct
        ((whenGiven (s.slot .having) (fun es gs => gs.filter (hideAll.having es))
          (hideAll.groups s)).map (hideAll.project (s.slot .expressions))))) = [] := by
    rcases h with hhaving | hoffset
    · simp [whenGiven, hhaving, hideAll]
    · simp [whenGiven, hoffset, hideAll]
  rw [ClauseSemantics.eval, hhidden]
  simp [whenGiven, hideAll]

end LocalSqlAgent
