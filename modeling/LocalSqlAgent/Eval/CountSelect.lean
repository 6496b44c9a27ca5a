import LocalSqlAgent.Eval.CountNames

/-! # The count query of a select

A select is counted without its `WITH`, without an `ORDER BY` that no row limit needs, and with names for its
columns. That is legal as a derived table if and only if the names come out distinct, and as many rows on every
database if no name an `ORDER BY` with ties mentions comes to stand for another column.

* **`LegalDerivedTable`**: what T-SQL asks of a derived table.
* **`CountsRight`**: the count query of a statement is legal and selects the right number.
* **`CountedSelect`**: what is written of a select.
* **`countsRight_select_iff`**: when the count of a select is right. -/

namespace LocalSqlAgent

variable {C : CaseMaps} {G : Generator} {tree q e : Expr} {ks : List Arg} {k : Arg}

/-! ## Legal derived tables -/

mutual

/-- The select an output column's name comes from: the first branch. -/
def firstBranch : Expr → Expr
  | .node l args =>
    if l.cls.isSetOperation ∨ l.cls = .subquery then (firstBranchAt args).getD (.node l args) else .node l args

/-- The first branch of the query under `this`. -/
def firstBranchAt : List (Arg × Expr) → Option Expr
  | [] => none
  | (k, c) :: rest => if k = .this then some (firstBranch c) else firstBranchAt rest

end

mutual

/-- A query and the branches it is put together from, those in parentheses as a whole. -/
def branches : Expr → List Expr
  | .node l args => .node l args :: if l.cls.isSetOperation then branchesAt args else []

/-- The branches under `this` and `expression`. -/
def branchesAt : List (Arg × Expr) → List Expr
  | [] => []
  | (k, c) :: rest => if k = .this ∨ k = .expression then branches c ++ branchesAt rest else branchesAt rest

end

/-- Output columns that have names, all different; stars aside. -/
structure NamedColumns (C : CaseMaps) (ps : List Expr) : Prop where
  named : ∀ p ∈ ps, isStarProjection p = true ∨ sqlName p ≠ ""
  distinct : (ps.filterMap (nameKey C)).Nodup

/-- **A query that T-SQL takes as a derived table.** -/
structure LegalDerivedTable (C : CaseMaps) (q : Expr) : Prop where
  /-- No `WITH` in it. -/
  noWith : q.countNodes isWith = 0
  /-- No `ORDER BY` without a row limit. -/
  limited : ∀ b ∈ branches q, b.slot .order ≠ [] → hasRowLimit b = true
  /-- No output column without a name, and no two of one. -/
  columns : NamedColumns C ((firstBranch q).slot .expressions)

/-- **A T-SQL query or set operation, as the parser returns it**: one `WITH`, before the statement; set
operations group to the left; an `ORDER BY` ends the statement, and the parser hangs it on the set operation
with its row limit, or on the last branch. -/
structure TsqlQuery (tree : Expr) : Prop where
  root : tree.cls = .select ∨ tree.cls.isSetOperation = true
  leadingWith : (tree.dropArgs [.with_]).countNodes isWith = 0
  operands : tree.cls.isSetOperation = true → ∃ first last, tree.slot .this = [first] ∧
    tree.slot .expression = [last] ∧ last.cls.isSetOperation = false ∧
    (∀ b ∈ branches first, b.slot .order = []) ∧
    (last.slot .order ≠ [] → tree.slot .order = [] ∧ hasRowLimit tree = false)

/-- **The count statement of a query is right**: what it counts is legal as a derived table, and it selects
the number of rows the query returns, on every database. -/
def CountsRight (C : CaseMaps) (G : Generator) (tree outer : Expr) : Prop :=
  ∃ q, derivedTable outer = some q ∧ LegalDerivedTable C (G.derived q) ∧
    ∀ (Db Row Out Key : Type) (E : QueryEngine Db Row Out Key) (db : Db),
      (E.returnedRows C db (outer.slot .with_) (G.derived q)).length = (E.returnedRows C db [] tree).length

/-! ## What ties -/

/-- The first place at which something holds. -/
def FirstAt (P : ℕ → Prop) (i : ℕ) : Prop := P i ∧ ∀ j < i, ¬ P j

/-- **Every name in an `ORDER BY` with ties stands for the column it stood for** before names were given. -/
def TiesClear (C : CaseMaps) (G : Generator) (tree : Expr) : Prop :=
  takesTies (limitArgs tree) = true → ∀ n, mentions C (tree.slot .order) n = true → ∀ i,
    (FirstAt (fun j => GivenName C G (tree.slot .expressions) j n ∨ KeepsName C (tree.slot .expressions) j n) i ↔
      FirstAt (fun j => (tree.slot .expressions)[j]?.bind (nameKey C) = some n) i)

/-! ## Arguments that stay -/

theorem filter_dropArgs {P : Arg × Expr → Bool} (h : ∀ e : Arg × Expr, e.1 ∈ ks → P e = false) :
    (q.dropArgs ks).children.filter P = q.children.filter P := by
  rw [RoseTree.dropArgs, RoseTree.children_node, List.filter_filter]
  refine List.filter_congr fun e _ => ?_
  by_cases hk : e.1 ∈ ks
  · simp [h e hk]
  · simp [hk]

theorem filter_setSlot {P : Arg × Expr → Bool} {es : List Expr} (h : ∀ e : Arg × Expr, e.1 = k → P e = false) :
    (q.setSlot k es).children.filter P = q.children.filter P := by
  have hnew : ((es.map fun n => (k, n)).filter P) = [] := by
    refine List.filter_eq_nil_iff.mpr fun e he => ?_
    obtain ⟨n, -, rfl⟩ := List.mem_map.mp he
    simp [h (k, n) rfl]
  rw [RoseTree.setSlot, RoseTree.children_node, List.filter_append, hnew, List.append_nil, List.filter_filter]
  refine List.filter_congr fun e _ => ?_
  by_cases hk : e.1 = k
  · simp [h e hk]
  · simp [hk]

theorem sourceArgs_dropArgs (h : ∀ k ∈ ks, k ∈ fixedKeys) : sourceArgs (q.dropArgs ks) = sourceArgs q :=
  filter_dropArgs fun e he => by simpa using h e.1 he

theorem limitArgs_dropArgs (h : ∀ k ∈ ks, k ∉ limitKeys) : limitArgs (q.dropArgs ks) = limitArgs q :=
  filter_dropArgs fun e he => by simpa using h e.1 he

theorem hasRowLimit_eq_false_iff : hasRowLimit q = false ↔ limitArgs q = [] := by
  rw [hasRowLimit, limitArgs, List.filter_eq_nil_iff, List.any_eq_false]
  constructor
  · intro h e he hmem
    have hkey : e.1 ∈ limitKeys := by simpa using hmem
    have hslot : q.slot e.1 = [] := by simpa using h e.1 hkey
    exact absurd (RoseTree.mem_slot.mpr (show (e.1, e.2) ∈ q.children from he)) (by simp [hslot])
  · intro h k hk hslot
    obtain ⟨c, hc⟩ := List.exists_mem_of_ne_nil _ (by simpa using hslot : q.slot k ≠ [])
    exact h (k, c) (RoseTree.mem_slot.mp hc) (by simpa using hk)

theorem hasRowLimit_congr {q' : Expr} (h : limitArgs q = limitArgs q') : hasRowLimit q = hasRowLimit q' := by
  rw [Bool.eq_iff_iff, ← Bool.not_eq_false, ← Bool.not_eq_false, hasRowLimit_eq_false_iff,
    hasRowLimit_eq_false_iff, h]

/-! ## No `WITH` inside -/

theorem noWith_iff : e.countNodes isWith = 0 ↔
    isWith e = false ∧ ∀ c ∈ e.children, c.2.countNodes isWith = 0 := by
  rw [RoseTree.countNodes_eq, Nat.add_eq_zero_iff, RoseTree.countNodesList_eq_zero_iff]
  refine and_congr_left fun _ => ?_
  cases isWith e <;> simp

theorem noWith_dropArgs (h : e.countNodes isWith = 0) : (e.dropArgs ks).countNodes isWith = 0 := by
  obtain ⟨hroot, hchildren⟩ := noWith_iff.mp h
  refine noWith_iff.mpr ⟨hroot, fun c hc => hchildren c ?_⟩
  exact List.mem_of_mem_filter hc

theorem noWith_setSlot {es : List Expr} (h : e.countNodes isWith = 0) (hes : ∀ c ∈ es, c.countNodes isWith = 0) :
    (e.setSlot k es).countNodes isWith = 0 := by
  obtain ⟨hroot, hchildren⟩ := noWith_iff.mp h
  refine noWith_iff.mpr ⟨hroot, fun c hc => ?_⟩
  rcases List.mem_append.mp hc with hold | hnew
  · exact hchildren c (List.mem_of_mem_filter hold)
  · obtain ⟨n, hn, rfl⟩ := List.mem_map.mp hnew
    exact hes n hn

theorem noWith_ident (n : String) : (Expr.ident n).countNodes isWith = 0 := rfl

theorem noWith_underAlias {n : String} (h : e.countNodes isWith = 0) :
    (underAlias n e).countNodes isWith = 0 := by
  rw [underAlias]
  split
  · refine noWith_setSlot h fun c hc => ?_
    rw [List.mem_singleton.mp hc]
    exact noWith_ident n
  · refine noWith_iff.mpr ⟨rfl, fun c hc => ?_⟩
    rcases List.mem_cons.mp hc with rfl | hc
    · exact h
    · rw [List.mem_singleton.mp hc]
      exact noWith_ident n

/-- The written columns bring no `WITH` along. -/
theorem noWith_writtenColumns {ps : List Expr} (h : ∀ p ∈ ps, p.countNodes isWith = 0) :
    ∀ p ∈ writtenColumns C G ps, p.countNodes isWith = 0 := by
  have hwritten : ∀ i p, p.countNodes isWith = 0 → (G.written i p).countNodes isWith = 0 := by
    intro i p hp
    rw [Generator.written]
    split
    · exact hp
    · exact noWith_underAlias hp
  intro p hp
  obtain ⟨i, hi⟩ := List.mem_iff_getElem?.mp hp
  by_cases hneeds : NeedsName C ps i
  · rw [writtenColumns_of_needs hneeds] at hi
    obtain ⟨p', hp', rfl⟩ := Option.map_eq_some_iff.mp hi
    exact hwritten i _ (noWith_underAlias (h p' (List.mem_of_getElem? hp')))
  · rw [writtenColumns_of_kept hneeds] at hi
    obtain ⟨p', hp', rfl⟩ := Option.map_eq_some_iff.mp hi
    exact hwritten i _ (h p' (List.mem_of_getElem? hp'))

theorem noWith_slot (h : q.countNodes isWith = 0) : ∀ c ∈ q.slot k, c.countNodes isWith = 0 :=
  fun c hc => (noWith_iff.mp h).2 (k, c) (RoseTree.mem_slot.mp hc)

/-! ## Selects -/

/-- The output value of a column does not depend on its alias. -/
theorem bareProjection_underAlias {n : String} : bareProjection (underAlias n e) = bareProjection e := by
  have hdrop : ∀ es, (e.setSlot .alias es).dropArgs [.alias] = e.dropArgs [.alias] := fun es => by
    rw [RoseTree.dropArgs, RoseTree.dropArgs]
    congr 1
    exact filter_setSlot fun c hc => by simp [hc]
  have hthis : ∀ es, (e.setSlot .alias es).arg .this = e.arg .this := fun es => by
    rw [RoseTree.arg, RoseTree.arg, slot_setSlot_of_ne (by decide)]
  have hcls : ∀ es, (e.setSlot .alias es).cls = e.cls := fun _ => rfl
  rw [underAlias]
  by_cases halias : e.cls = .alias
  · rw [if_pos (.inl halias), bareProjection, bareProjection, hcls, if_pos halias, if_pos halias, hthis, hdrop]
  · by_cases hsubquery : e.cls = .subquery
    · rw [if_pos (.inr hsubquery), bareProjection, bareProjection, hcls, if_neg halias, if_neg halias,
        if_pos hsubquery, if_pos hsubquery, hdrop]
    · rw [if_neg (not_or.mpr ⟨halias, hsubquery⟩), bareProjection, bareProjection, if_neg halias,
        if_neg hsubquery]
      rfl

/-- **Naming the columns changes no output value.** -/
theorem map_bareProjection_written (ps : List Expr) :
    (writtenColumns C G ps).map bareProjection = ps.map bareProjection := by
  have hwritten : ∀ i p, bareProjection (G.written i p) = bareProjection p := by
    intro i p
    rw [Generator.written]
    split
    · rfl
    · exact bareProjection_underAlias
  refine List.ext_getElem? fun i => ?_
  rw [List.getElem?_map, List.getElem?_map]
  by_cases hneeds : NeedsName C ps i
  · rw [writtenColumns_of_needs hneeds, Option.map_map]
    exact congrArg (Option.map · ps[i]?) (funext fun p => (hwritten i _).trans bareProjection_underAlias)
  · rw [writtenColumns_of_kept hneeds, Option.map_map]
    exact congrArg (Option.map · ps[i]?) (funext fun p => hwritten i p)

/-- **What becomes of a select**: its `WITH` goes, its `ORDER BY` where it has no row limit, and its columns
are written under names; all else stays. -/
structure CountedSelect (C : CaseMaps) (G : Generator) (tree q : Expr) : Prop where
  cls : q.cls = .select
  with_ : q.slot .with_ = []
  source : sourceArgs q = sourceArgs tree
  limit : limitArgs q = limitArgs tree
  distinct : q.slot .distinct = tree.slot .distinct
  columns : q.slot .expressions = writtenColumns C G (tree.slot .expressions)
  order : q.slot .order = if limitArgs tree = [] then [] else tree.slot .order

/-- A select is its own last branch. -/
theorem rightmost_of_select (h : q.cls = .select) : rightmost q = q := by
  obtain ⟨l, args⟩ := q
  rw [RoseTree.cls_node] at h
  rw [rightmost, h]
  rfl

theorem editRightmost_of_select {f : Expr → Expr} (h : q.cls = .select) : editRightmost f q = f q := by
  obtain ⟨l, args⟩ := q
  rw [RoseTree.cls_node] at h
  rw [editRightmost, h]
  rfl

/-- The select without its `WITH`, and without an `ORDER BY` that no row limit needs. -/
theorem countedQuery_of_select (h : tree.cls = .select) : countedQuery C tree = nameProjections C
    (if tree.slot .order ≠ [] ∧ limitArgs tree = [] then dropOrder (tree.dropArgs [.with_])
      else tree.dropArgs [.with_]) := by
  have hcls : (tree.dropArgs [.with_]).cls = .select := h
  have hop : (tree.dropArgs [.with_]).cls.isSetOperation = false := by rw [hcls]; rfl
  have horder : (tree.dropArgs [.with_]).slot .order = tree.slot .order := slot_dropArgs_of_not_mem (by decide)
  have hlimit : hasRowLimit (tree.dropArgs [.with_]) = false ↔ limitArgs tree = [] := by
    rw [hasRowLimit_eq_false_iff, limitArgs_dropArgs (by decide)]
  have hdropped : (dropOrder (tree.dropArgs [.with_])).cls = .select := h
  unfold countedQuery
  simp only [rightmost_of_select hcls, editRightmost_of_select hcls, hop, horder, hlimit, Bool.false_eq_true,
    false_or, and_self]
  by_cases hdrop : tree.slot .order ≠ [] ∧ limitArgs tree = []
  · simp only [hdrop, hdropped, Cls.isSetOperation, ne_eq, not_false_eq_true, and_self, if_true,
      Bool.false_eq_true, false_and, if_false]
  · simp only [hdrop, hcls, Cls.isSetOperation, if_false, Bool.false_eq_true, false_and, if_true]

theorem setSlot_setSlot {es es' : List Expr} : (q.setSlot k es).setSlot k es' = q.setSlot k es' := by
  rw [RoseTree.setSlot, filter_setSlot fun e he => by simp [he]]
  rfl

/-- A select as it is written: the columns under their names. -/
theorem derived_nameProjections (h : q.cls = .select) : G.derived (nameProjections C q) =
    q.setSlot .expressions (writtenColumns C G (q.slot .expressions)) := by
  have hnamed : (nameProjections C q).cls = .select := h
  rw [Generator.derived, if_pos hnamed, nameProjections, slot_setSlot_self, setSlot_setSlot]
  rfl

/-- A select whose columns are written under their names, all else as in the statement. -/
theorem countedSelect_of {t : Expr} (hcls : t.cls = .select) (hwith : t.slot .with_ = [])
    (hsource : sourceArgs t = sourceArgs tree) (hlimit : limitArgs t = limitArgs tree)
    (hdistinct : t.slot .distinct = tree.slot .distinct) (hcolumns : t.slot .expressions = tree.slot .expressions)
    (horder : t.slot .order = if limitArgs tree = [] then [] else tree.slot .order) :
    CountedSelect C G tree (G.derived (nameProjections C t)) := by
  have hsame : ∀ k, k ≠ .expressions → (G.derived (nameProjections C t)).slot k = t.slot k := fun k hk => by
    rw [derived_nameProjections hcls, slot_setSlot_of_ne hk]
  have hargs : ∀ {P : Arg × Expr → Bool}, (∀ e : Arg × Expr, e.1 = .expressions → P e = false) →
      (G.derived (nameProjections C t)).children.filter P = t.children.filter P := fun hP => by
    rw [derived_nameProjections hcls, filter_setSlot hP]
  exact
    { cls := by rw [derived_nameProjections hcls]; exact hcls
      with_ := (hsame _ (by decide)).trans hwith
      source := (hargs fun e he => by simp [he, fixedKeys]).trans hsource
      limit := (hargs fun e he => by simp [he, limitKeys]).trans hlimit
      distinct := (hsame _ (by decide)).trans hdistinct
      columns := by rw [derived_nameProjections hcls, slot_setSlot_self, hcolumns]
      order := (hsame _ (by decide)).trans horder }

/-- **What is written of a select.** -/
theorem countedSelect (h : tree.cls = .select) : CountedSelect C G tree (G.derived (countedQuery C tree)) := by
  rw [countedQuery_of_select h]
  split
  · rename_i hdrop
    refine countedSelect_of h ?_ ?_ ?_ ?_ ?_ ?_
    · rw [dropOrder, slot_dropArgs_of_not_mem (by decide), slot_dropArgs_of_mem (by decide)]
    · rw [dropOrder, sourceArgs_dropArgs (by decide), sourceArgs_dropArgs (by decide)]
    · rw [dropOrder, limitArgs_dropArgs (by decide), limitArgs_dropArgs (by decide)]
    · rw [dropOrder, slot_dropArgs_of_not_mem (by decide), slot_dropArgs_of_not_mem (by decide)]
    · rw [dropOrder, slot_dropArgs_of_not_mem (by decide), slot_dropArgs_of_not_mem (by decide)]
    · rw [dropOrder, slot_dropArgs_of_mem (by decide), if_pos hdrop.2]
  · rename_i hkeep
    refine countedSelect_of h (slot_dropArgs_of_mem (by decide)) (sourceArgs_dropArgs (by decide))
      (limitArgs_dropArgs (by decide)) (slot_dropArgs_of_not_mem (by decide))
      (slot_dropArgs_of_not_mem (by decide)) ?_
    rw [slot_dropArgs_of_not_mem (by decide)]
    split
    · rename_i hlimit
      by_contra hne
      exact hkeep ⟨fun h => hne h, hlimit⟩
    · rfl

/-- **The derived table of a select holds no `WITH`.** -/
theorem noWith_countedSelect (h : tree.cls = .select) (hwith : (tree.dropArgs [.with_]).countNodes isWith = 0) :
    (G.derived (countedQuery C tree)).countNodes isWith = 0 := by
  have hwritten : ∀ t : Expr, t.cls = .select → t.countNodes isWith = 0 →
      (G.derived (nameProjections C t)).countNodes isWith = 0 := fun t hcls ht => by
    rw [derived_nameProjections hcls]
    exact noWith_setSlot ht (noWith_writtenColumns (noWith_slot ht))
  rw [countedQuery_of_select h]
  split
  · exact hwritten _ h (noWith_dropArgs hwith)
  · exact hwritten _ h hwith

theorem branches_of_select (h : q.cls = .select) : branches q = [q] := by
  obtain ⟨l, args⟩ := q
  rw [RoseTree.cls_node] at h
  rw [branches, h]
  rfl

theorem firstBranch_of_select (h : q.cls = .select) : firstBranch q = q := by
  obtain ⟨l, args⟩ := q
  rw [RoseTree.cls_node] at h
  rw [firstBranch, h]
  rfl

/-- **A select is legal as a derived table if and only if no name is given twice.** -/
theorem legal_select_iff (hlower : ∀ i, C.lower (madeUpName i) = madeUpName i) (h : tree.cls = .select)
    (hwith : (tree.dropArgs [.with_]).countNodes isWith = 0) :
    LegalDerivedTable C (G.derived (countedQuery C tree)) ↔ NamesClear C G (tree.slot .expressions) := by
  have hselect := countedSelect (C := C) (G := G) h
  rw [← namesDistinct_iff hlower, ← hselect.columns]
  constructor
  · rintro ⟨-, -, -, hdistinct⟩
    rwa [firstBranch_of_select hselect.cls] at hdistinct
  · intro hdistinct
    refine ⟨noWith_countedSelect h hwith, fun b hb horder => ?_, ?_, ?_⟩
    · rw [branches_of_select hselect.cls, List.mem_singleton] at hb
      subst hb
      rw [hselect.order] at horder
      rw [hasRowLimit_congr hselect.limit, ← Bool.not_eq_false, hasRowLimit_eq_false_iff]
      exact fun hlimit => horder (if_pos hlimit)
    · rw [firstBranch_of_select hselect.cls, hselect.columns]
      exact written_named
    · rwa [firstBranch_of_select hselect.cls]

/-! ## How many rows a select returns -/

/-- The first column of a name. -/
theorem findIdx?_nameKey_iff {ps : List Expr} {n : String} {i : ℕ} :
    (ps.findIdx? fun e => nameKey C e = some n) = some i ↔
      FirstAt (fun j => ps[j]?.bind (nameKey C) = some n) i := by
  have hget : ∀ {j} (hj : j < ps.length), ps[j]?.bind (nameKey C) = nameKey C ps[j] := fun hj => by
    rw [List.getElem?_eq_getElem hj, Option.bind_some]
  rw [List.findIdx?_eq_some_iff_getElem, FirstAt]
  constructor
  · rintro ⟨hi, hname, hbefore⟩
    refine ⟨by rw [hget hi]; exact of_decide_eq_true hname, fun j hj => ?_⟩
    rw [hget (by omega)]
    simpa using hbefore j hj
  · rintro ⟨hname, hbefore⟩
    have hi : i < ps.length := by
      by_contra hlong
      rw [List.getElem?_eq_none (by omega)] at hname
      cases hname
    rw [hget hi] at hname
    refine ⟨hi, by simpa using hname, fun j hj => ?_⟩
    have := hbefore j hj
    rw [hget (by omega)] at this
    simpa using this

/-- **What an `ORDER BY` with ties refers to stays** if and only if every name it mentions stands for the same
column. -/
theorem orderScope_written_iff (hlower : ∀ i, C.lower (madeUpName i) = madeUpName i) {ps order : List Expr} :
    orderScope C (writtenColumns C G ps) order = orderScope C ps order ↔
      ∀ n, mentions C order n = true → ∀ i,
        (FirstAt (fun j => GivenName C G ps j n ∨ KeepsName C ps j n) i ↔
          FirstAt (fun j => ps[j]?.bind (nameKey C) = some n) i) := by
  have hwritten : ∀ n i, ((writtenColumns C G ps).findIdx? fun e => nameKey C e = some n) = some i ↔
      FirstAt (fun j => GivenName C G ps j n ∨ KeepsName C ps j n) i := fun n i => by
    rw [findIdx?_nameKey_iff]
    simp only [written_nameKey_iff hlower]
  constructor
  · intro h n hn i
    have hscope := congrFun h n
    rw [orderScope, orderScope, if_pos hn, if_pos hn] at hscope
    rw [← hwritten, ← findIdx?_nameKey_iff, hscope]
  · intro h
    funext n
    rw [orderScope, orderScope]
    split
    · rename_i hn
      refine Option.ext fun i => ?_
      rw [hwritten, findIdx?_nameKey_iff]
      exact h n hn i
    · rfl

variable {Db Row Out Key : Type} {E : QueryEngine Db Row Out Key} {db : Db}

/-- The rows of a select, its `WITH` in scope. -/
theorem eval_hoisted (h : tree.cls = .select) : E.eval C db [] tree =
    E.arranged tree (E.selected C db (tree.slot .with_) tree) := by
  rw [QueryEngine.eval_select h, QueryEngine.scopeIn, List.nil_append]

/-- The rows of what is written of a select, its `WITH` hoisted. -/
theorem eval_countedSelect (h : CountedSelect C G tree q) : E.eval C db (tree.slot .with_) q =
    E.arranged q (E.selected C db (tree.slot .with_) q) := by
  rw [QueryEngine.eval_select h.cls, QueryEngine.scopeIn, h.with_, List.append_nil]

theorem outputs_countedSelect (h : CountedSelect C G tree q) {ctes : List Expr} :
    E.outputs db ctes q = E.outputs db ctes tree :=
  QueryEngine.outputs_congr h.source (by rw [h.columns, map_bareProjection_written]) h.distinct

/-- **As many rows**, where every name an `ORDER BY` with ties mentions stands for the same column. -/
theorem length_countedSelect (hlower : ∀ i, C.lower (madeUpName i) = madeUpName i) (htree : tree.cls = .select)
    (h : CountedSelect C G tree q) (hties : TiesClear C G tree) :
    (E.eval C db (tree.slot .with_) q).length = (E.eval C db [] tree).length := by
  rw [eval_hoisted htree, eval_countedSelect h]
  by_cases hlimit : limitArgs tree = []
  · -- without a row limit every row of the outputs is one of the result
    have hq := E.arranged_perm (E.selected C db (tree.slot .with_) q) (h.limit.trans hlimit)
    have ht := E.arranged_perm (E.selected C db (tree.slot .with_) tree) hlimit
    rw [hq.length_eq, ht.length_eq, QueryEngine.selected_map_fst, QueryEngine.selected_map_fst,
      outputs_countedSelect h]
  · have horder : q.slot .order = tree.slot .order := h.order.trans (if_neg hlimit)
    rw [QueryEngine.arranged_congr horder h.limit]
    by_cases htakes : takesTies (limitArgs tree) = true
    · have hscope := (orderScope_written_iff hlower).mpr (hties htakes)
      rw [QueryEngine.selected, QueryEngine.selected, outputs_countedSelect h, h.columns, horder, hscope]
    · refine QueryEngine.length_arranged (by simpa using htakes) ?_
      rw [QueryEngine.selected, QueryEngine.selected, List.length_map, List.length_map, outputs_countedSelect h]

/-! ## Ties that show -/

/-- An engine on two rows: an `ORDER BY` that a name resolves in as `column` sorts by nothing, any other tells
the rows apart, and every row limit leaves the rows that tie with the first. -/
def tieEngine (n : String) (column : Option ℕ) : QueryEngine Unit Bool Unit Bool where
  rows _ _ _ _ := [false, true]
  project _ _ := ()
  distinct _ pairs := pairs
  combine _ xs ys := xs ++ ys
  rowKey scope _ r _ := if scope n = column then false else r
  unionKey _ _ _ := false
  order _ rows := rows
  limit ls rows := if takesTies ls then rows.takeWhile fun r => some r.2 = rows.head?.map Prod.snd else rows
  returned _ rows := rows
  combine_perm _ _ _ _ _ hxs hys := hxs.append hys
  order_perm _ _ := List.Perm.refl _
  limit_length ls xs ys hties h := by rw [hties]; exact h
  returned_length _ _ _ h := h

/-- **What ties depends on what the names stand for**: some engine returns another number of rows. -/
theorem tieEngine_length (htree : tree.cls = .select) (h : CountedSelect C G tree q) {n : String}
    (htakes : takesTies (limitArgs tree) = true) (horder : tree.slot .order ≠ [])
    (hscope : orderScope C (q.slot .expressions) (tree.slot .order) n ≠
      orderScope C (tree.slot .expressions) (tree.slot .order) n) :
    let E := tieEngine n (orderScope C (tree.slot .expressions) (tree.slot .order) n)
    (E.eval C () (tree.slot .with_) q).length ≠ (E.eval C () [] tree).length := by
  intro E
  have hlimit : limitArgs tree ≠ [] := fun hnone => by rw [hnone] at htakes; cases htakes
  have hqorder : q.slot .order = tree.slot .order := h.order.trans (if_neg hlimit)
  have harranged : ∀ rows, E.arranged tree rows =
      (rows.takeWhile fun r => some r.2 = rows.head?.map Prod.snd).map Prod.fst := fun rows => by
    rw [QueryEngine.arranged, ifGiven, if_neg hlimit, ifGiven, if_neg horder]
    exact congrArg (List.map Prod.fst) (if_pos htakes)
  have houtputs : ∀ ctes s, E.outputs () ctes s = [(false, ()), (true, ())] := fun ctes s => by
    rw [QueryEngine.outputs, ifGiven]
    split <;> rfl
  have htied : E.selected C () (tree.slot .with_) tree = [((), false), ((), false)] := by
    rw [QueryEngine.selected, houtputs]
    simp [E, tieEngine]
  have hapart : E.selected C () (tree.slot .with_) q = [((), false), ((), true)] := by
    rw [QueryEngine.selected, houtputs, hqorder]
    simp [E, tieEngine, hscope]
  rw [eval_hoisted htree, eval_countedSelect h, QueryEngine.arranged_congr hqorder h.limit, harranged, harranged,
    htied, hapart]
  decide

/-- **The count of a select is right** exactly if no name is given twice and none changes what ties. -/
theorem countsRight_select_iff (hlower : ∀ i, C.lower (madeUpName i) = madeUpName i) (htree : tree.cls = .select)
    (hwith : (tree.dropArgs [.with_]).countNodes isWith = 0) :
    CountsRight C G tree (countOver (tree.slot .with_) (countedQuery C tree)) ↔
      NamesClear C G (tree.slot .expressions) ∧ TiesClear C G tree := by
  have hselect := countedSelect (C := C) (G := G) htree
  constructor
  · rintro ⟨q, hq, hlegal, hcount⟩
    obtain rfl : countedQuery C tree = q := Option.some.inj hq
    refine ⟨(legal_select_iff hlower htree hwith).mp hlegal, fun htakes => ?_⟩
    refine (orderScope_written_iff hlower).mp ?_
    by_contra hscope
    have horder : tree.slot .order ≠ [] := by
      intro hnone
      refine hscope (funext fun n => ?_)
      rw [hnone]
      rfl
    obtain ⟨n, hn⟩ := Function.ne_iff.mp hscope
    rw [← hselect.columns] at hn
    have hlength := hcount _ _ _ _ (tieEngine n (orderScope C (tree.slot .expressions) (tree.slot .order) n)) ()
    rw [slot_with_countOver] at hlength
    exact tieEngine_length htree hselect htakes horder hn hlength
  · rintro ⟨hclear, hties⟩
    refine ⟨countedQuery C tree, rfl, (legal_select_iff hlower htree hwith).mpr hclear, fun _ _ _ _ E db => ?_⟩
    have hlength : (E.eval C db (tree.slot .with_) (G.derived (countedQuery C tree))).length =
        (E.eval C db [] tree).length := length_countedSelect hlower htree hselect hties
    rw [slot_with_countOver, QueryEngine.returnedRows, QueryEngine.returnedRows, hselect.source]
    exact E.returned_length _ hlength

end LocalSqlAgent
