import LocalSqlAgent.Security.TableAllowlist
import LocalSqlAgent.Session.Composer
import Mathlib.Data.List.Perm.Basic

/-! # The rows of a T-SQL query

A query is a select, a set operation on two queries, or a query in parentheses, each with an `ORDER BY` and a
row limit of its own. Its rows are fixed here as far as they depend on how the clauses stand together: a
`WITH` is in scope below its statement, names of output columns are what an `ORDER BY` may refer to, an
`ORDER BY` changes the order only, a row limit cuts what the order lists. What a clause does to rows is a
parameter (`QueryEngine`).

* **`sqlName`**: the name of an output column.
* **`QueryEngine.eval`**: the rows of a query, with the definitions of the `WITH`s around it.
* **`eval_dropOrder_perm`**: without a row limit an `ORDER BY` returns the same rows.
* **`length_eval_congr`**: without ties the number of rows does not depend on what the rows are ordered by. -/

namespace LocalSqlAgent

/-! ## Clauses -/

/-- `isinstance(node, exp.SetOperation)`. -/
def Cls.isSetOperation : Cls → Bool
  | .union _ | .intersect | .except => true
  | _ => false

/-- The argument keys of a row limit: `TOP` and `LIMIT`, `OFFSET`, `FETCH`. -/
def limitKeys : List Arg := [.limit, .offset, .other "fetch"]

/-- The row limit of a query. -/
def limitArgs (q : Expr) : List (Arg × Expr) := q.children.filter fun e => e.1 ∈ limitKeys

/-- Whether a row limit takes the rows that tie with the last one; a flag that is set is a child. -/
def takesTies (limits : List (Arg × Expr)) : Bool :=
  limits.any fun e => (e.2.slot (.other "limit_options")).any fun o => o.slot (.other "with_ties") ≠ []

/-- The arguments of a query whose meaning is fixed here. -/
def fixedKeys : List Arg :=
  limitKeys ++ [.this, .expression, .expressions, .distinct, .order, .with_]

/-- Its other arguments: `FROM`, joins, `WHERE`, `GROUP BY`, `HAVING`, `FOR`. -/
def sourceArgs (q : Expr) : List (Arg × Expr) := q.children.filter fun e => e.1 ∉ fixedKeys

/-! ## Output columns -/

/-- A star, alone or behind a table. -/
def isStarProjection (e : Expr) : Bool :=
  e.cls = .star || (e.cls = .column && (e.arg .this).any fun c => c.cls = .star)

/-- **The name of an output column**: its alias, else the name of the column it is; empty for none. -/
def sqlName (e : Expr) : String :=
  if isStarProjection e then ""
  else if e.aliasName ≠ "" then e.aliasName
  else if e.cls = .column then e.name
  else ""

/-- What an output column computes, its name aside. -/
def bareProjection (e : Expr) : Expr :=
  if e.cls = .alias then (e.arg .this).getD (e.dropArgs [.alias])
  else if e.cls = .subquery then e.dropArgs [.alias]
  else e

variable (C : CaseMaps)

/-- The name of an output column as names are compared. -/
def nameKey (e : Expr) : Option String := if sqlName e = "" then none else some (C.lower (sqlName e))

/-- Whether an `ORDER BY` mentions a name by itself. -/
def mentions (order : List Expr) (n : String) : Bool :=
  order.any fun o => 0 < o.countNodes fun e => e.cls = .column && e.qualifier = "" && C.lower e.name = n

/-- **What the names in an `ORDER BY` stand for**: the first output column of that name. -/
def orderScope (projections order : List Expr) (n : String) : Option ℕ :=
  if mentions C order n then projections.findIdx? fun e => nameKey C e = some n else none

/-! ## Engines -/

/-- Apply a clause when it is there. -/
def ifGiven {α β : Type} (clause : List α) (f : List α → β → β) (x : β) : β :=
  if clause = [] then x else f clause x

/-- **What the clauses do to rows** on the databases `Db`: a select lists rows `Row` and makes outputs `Out`
of them, an `ORDER BY` goes by keys `Key`. -/
structure QueryEngine (Db Row Out Key : Type) where
  /-- What a select reads, grouped and filtered, with the definitions in scope and the output values. -/
  rows : Db → List Expr → List (Arg × Expr) → List Expr → List Row
  /-- The output values of a row. -/
  project : List Expr → Row → Out
  /-- `DISTINCT`. -/
  distinct : List Expr → List (Row × Out) → List (Row × Out)
  /-- A set operation. -/
  combine : Cls → List Out → List Out → List Out
  /-- What a select's `ORDER BY` sorts a row by. -/
  rowKey : (String → Option ℕ) → List Expr → Row → Out → Key
  /-- What the `ORDER BY` of a set operation sorts a row by; the names are those of the first branch. -/
  unionKey : List Expr → List Expr → Out → Key
  /-- `ORDER BY`. -/
  order : List Expr → List (Out × Key) → List (Out × Key)
  /-- A row limit. -/
  limit : List (Arg × Expr) → List (Out × Key) → List (Out × Key)
  /-- What the statement makes of its rows: `FOR XML` makes one of all of them. -/
  returned : List (Arg × Expr) → List Out → List Out
  /-- A set operation is one on bags. -/
  combine_perm : ∀ c {xs xs' ys ys'}, xs.Perm xs' → ys.Perm ys' → (combine c xs ys).Perm (combine c xs' ys')
  /-- An `ORDER BY` loses no row and adds none. -/
  order_perm : ∀ es xs, (order es xs).Perm xs
  /-- How many rows a row limit leaves depends on their number, unless it takes ties. -/
  limit_length : ∀ ls {xs ys}, takesTies ls = false → xs.length = ys.length →
    (limit ls xs).length = (limit ls ys).length
  /-- How many rows are returned depends on their number. -/
  returned_length : ∀ rest {xs ys}, xs.length = ys.length → (returned rest xs).length = (returned rest ys).length

namespace QueryEngine

variable {Db Row Out Key : Type} (E : QueryEngine Db Row Out Key) (db : Db)

/-- The rows of a select and their outputs, duplicates removed where it says so. -/
def outputs (ctes : List Expr) (s : Expr) : List (Row × Out) :=
  let values := (s.slot .expressions).map bareProjection
  let pairs := (E.rows db ctes (sourceArgs s) values).map fun r => (r, E.project values r)
  ifGiven (s.slot .distinct) E.distinct pairs

/-- The outputs of a select with what its `ORDER BY` sorts them by. -/
def selected (ctes : List Expr) (s : Expr) : List (Out × Key) :=
  let key := E.rowKey (orderScope C (s.slot .expressions) (s.slot .order)) (s.slot .order)
  (E.outputs db ctes s).map fun p => (p.2, key p.1 p.2)

/-- The rows of a set operation before they are ordered, with their keys; of a query in parentheses, its
own rows. -/
def combined (q : Expr) (xs ys : List Out) : List (Out × Key) :=
  (if q.cls.isSetOperation then E.combine q.cls xs ys else xs).map fun o =>
    (o, E.unionKey (q.slot .order) (q.slot .this) o)

/-- The rows of a query, ordered and cut. -/
def arranged (q : Expr) (rows : List (Out × Key)) : List Out :=
  (ifGiven (limitArgs q) E.limit (ifGiven (q.slot .order) E.order rows)).map Prod.fst

/-- The definitions in scope in a query. -/
def scopeIn (ctes : List Expr) (q : Expr) : List Expr := ctes ++ q.slot .with_

mutual

/-- **The rows of a query**, with the definitions in scope around it. -/
def eval : List Expr → Expr → List Out
  | ctes, .node l args =>
    E.arranged (.node l args) <|
      if l.cls = .select then E.selected C db (scopeIn ctes (.node l args)) (.node l args)
      else E.combined (.node l args) (evalAt (scopeIn ctes (.node l args)) .this args)
        (evalAt (scopeIn ctes (.node l args)) .expression args)

/-- The rows of the first query under a key. -/
def evalAt : List Expr → Arg → List (Arg × Expr) → List Out
  | _, _, [] => []
  | ctes, k, (k', c) :: rest => if k' = k then eval ctes c else evalAt ctes k rest

end

/-- The rows of the query under a key. -/
def operand (ctes : List Expr) (q : Expr) (k : Arg) : List Out :=
  ((q.arg k).map (E.eval C db (scopeIn ctes q))).getD []

/-- **The rows a statement returns.** -/
def returnedRows (ctes : List Expr) (q : Expr) : List Out :=
  E.returned (sourceArgs q) (E.eval C db ctes q)

/-! ## Equations -/

variable {C : CaseMaps} {E : QueryEngine Db Row Out Key} {db : Db} {ctes : List Expr} {q q' : Expr}

theorem evalAt_eq {k : Arg} {args : List (Arg × Expr)} : E.evalAt C db ctes k args =
    ((((args.filter (·.1 = k)).map (·.2)).head?.map (E.eval C db ctes))).getD [] := by
  induction args with
  | nil => rfl
  | cons head rest ih =>
    obtain ⟨k', c⟩ := head
    by_cases hk : k' = k
    · simp [evalAt, hk]
    · simp [evalAt, hk, ih]

theorem eval_select (h : q.cls = .select) :
    E.eval C db ctes q = E.arranged q (E.selected C db (scopeIn ctes q) q) := by
  obtain ⟨l, args⟩ := q
  rw [RoseTree.cls_node] at h
  rw [eval, if_pos h]

theorem eval_of_not_select (h : q.cls ≠ .select) : E.eval C db ctes q =
    E.arranged q (E.combined q (E.operand C db ctes q .this) (E.operand C db ctes q .expression)) := by
  obtain ⟨l, args⟩ := q
  rw [RoseTree.cls_node] at h
  rw [eval, if_neg h, evalAt_eq, evalAt_eq]
  rfl

/-- A query is arranged by its order and its row limit only. -/
theorem arranged_congr {rows : List (Out × Key)} (horder : q.slot .order = q'.slot .order)
    (hlimit : limitArgs q = limitArgs q') : E.arranged q rows = E.arranged q' rows := by
  rw [arranged, arranged, horder, hlimit]

/-- The outputs of a select depend on what its columns compute, not on their names. -/
theorem outputs_congr (hsource : sourceArgs q = sourceArgs q')
    (hvalues : (q.slot .expressions).map bareProjection = (q'.slot .expressions).map bareProjection)
    (hdistinct : q.slot .distinct = q'.slot .distinct) : E.outputs db ctes q = E.outputs db ctes q' := by
  rw [outputs, outputs, hsource, hvalues, hdistinct]

theorem selected_map_fst : (E.selected C db ctes q).map Prod.fst = (E.outputs db ctes q).map Prod.snd := by
  rw [selected, List.map_map]
  rfl

theorem combined_map_fst {xs ys : List Out} : (E.combined q xs ys).map Prod.fst =
    if q.cls.isSetOperation then E.combine q.cls xs ys else xs := by
  rw [combined, List.map_map]
  exact List.map_id _

/-! ## Order and number -/

/-- Rows that differ in their order only, or not at all: an `ORDER BY` without a row limit may go. -/
theorem arranged_perm (rows : List (Out × Key)) (h : limitArgs q = []) :
    (E.arranged q rows).Perm (rows.map Prod.fst) := by
  rw [arranged, ifGiven, if_pos h, ifGiven]
  split
  · exact List.Perm.refl _
  · exact (E.order_perm _ _).map _

/-- **Without a row limit an `ORDER BY` returns the same rows.** -/
theorem eval_dropOrder_perm (h : limitArgs q = []) :
    (E.eval C db ctes (q.dropArgs [.order])).Perm (E.eval C db ctes q) := by
  have hlimit : limitArgs (q.dropArgs [.order]) = [] := by
    rw [limitArgs, List.filter_eq_nil_iff] at h ⊢
    exact fun e he => h e (List.mem_of_mem_filter he)
  have hslot : ∀ k, k ≠ .order → (q.dropArgs [.order]).slot k = q.slot k := fun k hk =>
    slot_dropArgs_of_not_mem (by simpa using hk)
  have hscope : scopeIn ctes (q.dropArgs [.order]) = scopeIn ctes q := by
    rw [scopeIn, scopeIn, hslot _ (by decide)]
  by_cases hselect : q.cls = .select
  · have hsource : sourceArgs (q.dropArgs [.order]) = sourceArgs q := by
      rw [sourceArgs, sourceArgs, RoseTree.dropArgs, RoseTree.children_node, List.filter_filter]
      refine List.filter_congr fun e _ => ?_
      by_cases hk : e.1 = .order
      · simp [hk, fixedKeys]
      · simp [hk]
    have houtputs : E.outputs db (scopeIn ctes q) (q.dropArgs [.order]) = E.outputs db (scopeIn ctes q) q :=
      outputs_congr hsource (by rw [hslot _ (by decide)]) (hslot _ (by decide))
    rw [eval_select hselect, eval_select (q := q.dropArgs [.order]) hselect, hscope]
    refine (E.arranged_perm _ hlimit).trans (List.Perm.trans ?_ (E.arranged_perm _ h).symm)
    rw [selected_map_fst, selected_map_fst, houtputs]
  · have hoperand : ∀ k, k ≠ .order → E.operand C db ctes (q.dropArgs [.order]) k = E.operand C db ctes q k :=
      fun k hk => by rw [operand, operand, RoseTree.arg, RoseTree.arg, hslot k hk, hscope]
    rw [eval_of_not_select hselect, eval_of_not_select (q := q.dropArgs [.order]) hselect,
      hoperand _ (by decide), hoperand _ (by decide)]
    refine (E.arranged_perm _ hlimit).trans (List.Perm.trans ?_ (E.arranged_perm _ h).symm)
    rw [combined_map_fst, combined_map_fst]
    exact List.Perm.refl _

/-- **How many rows a query leaves** depends on how many there are, unless its row limit takes ties. -/
theorem length_arranged {rows rows' : List (Out × Key)} (hties : takesTies (limitArgs q) = false)
    (h : rows.length = rows'.length) : (E.arranged q rows).length = (E.arranged q rows').length := by
  have hordered : (ifGiven (q.slot .order) E.order rows).length =
      (ifGiven (q.slot .order) E.order rows').length := by
    rw [ifGiven, ifGiven]
    split
    · exact h
    · rw [(E.order_perm _ _).length_eq, (E.order_perm _ _).length_eq, h]
  rw [arranged, arranged, List.length_map, List.length_map]
  generalize ifGiven (q.slot .order) E.order rows = xs, ifGiven (q.slot .order) E.order rows' = ys at hordered ⊢
  rw [ifGiven, ifGiven]
  split
  · exact hordered
  · exact E.limit_length _ hties hordered

end QueryEngine

end LocalSqlAgent
