import LocalSqlAgent.Security.PolicyOrder
import LocalSqlAgent.Security.ColumnRejections

/-! # The column policy, node by node

The guard's passes over columns and stars ask something of every node of a statement and nothing of the
statement as a whole. For a statement the guard accepts without a policy, acceptance under one is
therefore that every node is allowed.

* **`DenialAllows`**, **`JoinOnlyAllows`**: what the denied names and the join-only columns ask of one
  node.
* **`validateSqlWith_ok_iff`**: acceptance under a key's entries, node by node.
* **`validateSqlWith_refuses_columns`**: and a refusal is over a column. -/

namespace LocalSqlAgent

section Nodes

variable (E : GuardEnv) (tree : Expr)

/-- **The denied names allow a node**: a column is not called by one, and a star expands to none. -/
structure DenialAllows (denied : List String) (o : ExprOcc) : Prop where
  column : o.node.cls = .column → o.node.name ≠ "" → o.node.name ≠ "*" →
    E.schema.case.upper o.node.name ∉ denied
  star : o.node.cls = .star → denied ≠ [] → checkDeniedStar E tree denied o = .ok ()

/-- **The join-only columns allow a node**: a column, a join or a star the join-only pass lets
through. -/
structure JoinOnlyAllows (R : JoinOnlyRestrictions) (o : ExprOcc) : Prop where
  column : o.node.cls = .column → R.byTable ≠ [] → checkJoinOnlyColumn E.schema tree R o = .ok ()
  join : o.node.cls.isJoin = true → R.byTable ≠ [] → checkJoinOnlyJoin E.schema tree R o = .ok ()
  star : o.node.cls = .star → R.byTable ≠ [] → checkJoinOnlyStar E.repr E.schema tree R o = .ok ()

end Nodes

variable {E : GuardEnv} {dialect : Dialect} {tree : Expr}

theorem sortedStrings_eq_nil_iff {l : List String} : sortedStrings l = [] ↔ l = [] := by
  rw [sortedStrings, ← List.length_eq_zero_iff, List.length_insertionSort, List.length_eq_zero_iff]

/-- The restricted entries of some tables. -/
theorem entries_eq_nil_iff {R : JoinOnlyRestrictions} {tables : List SchemaTable} :
    sortedStrings ((tables.dedup.flatMap fun t => (R.columnsOf t.key).map (·.2)).dedup) = [] ↔
      ∀ t ∈ tables, R.columnsOf t.key = [] := by
  rw [sortedStrings_eq_nil_iff, List.dedup_eq_nil, List.flatMap_eq_nil_iff]
  simp only [List.mem_dedup, List.map_eq_nil_iff]

/-- The denied columns of some tables. -/
theorem exposed_eq_nil_iff {E : GuardEnv} {denied : List String} {tables : List SchemaTable} :
    sortedStrings ((tables.flatMap fun t => E.schema.columnsByTable t).filter
      fun column => E.schema.case.upper column ∈ denied) = [] ↔
        ∀ t ∈ tables, ∀ c ∈ E.schema.columnsByTable t, E.schema.case.upper c ∉ denied := by
  rw [sortedStrings_eq_nil_iff, List.filter_eq_nil_iff]
  simp only [List.mem_flatMap, decide_eq_true_eq]
  exact ⟨fun h t ht c hc => h c ⟨t, ht, hc⟩, fun h c ⟨t, ht, hc⟩ => h t ht c hc⟩

/-- The tables the passes over denied names expand a star to. -/
def starTables (E : GuardEnv) (tree : Expr) (star : ExprOcc) : Option (List SchemaTable) :=
  match starQualifier star with
  | some q => (aliasLookup (tableAliasMap E.schema tree) (E.schema.case.lower q.node.qualifier)).map ([·])
  | none => resolveStarTables E (cteNames E.schema.case tree) ((enclosingSelect star).map (·.node))

/-- **A star passes under denied names** when it expands to tables without such a column. -/
theorem checkDeniedStar_ok_iff {denied : List String} {star : ExprOcc} :
    checkDeniedStar E tree denied star = .ok () ↔ ∃ tables, starTables E tree star = some tables ∧
      ∀ t ∈ tables, ∀ c ∈ E.schema.columnsByTable t, E.schema.case.upper c ∉ denied := by
  have hstar : checkDeniedStar E tree denied star = .ok () ↔ ∃ tables, starTables E tree star = some tables ∧
      sortedStrings ((tables.flatMap fun t => E.schema.columnsByTable t).filter
        fun column => E.schema.case.upper column ∈ denied) = [] := by
    unfold checkDeniedStar
    dsimp only
    split
    · rename_i hnone
      have htables : starTables E tree star = none := hnone
      simp only [htables, reduceCtorEq, false_and, exists_false]
    · rename_i tables hsome
      have htables : starTables E tree star = some tables := hsome
      simp only [htables, refuseIf_ok_iff, ne_eq, not_not, Option.some.injEq, exists_eq_left']
  simp only [hstar, exposed_eq_nil_iff]

/-- A column passes under denied names when it passes without them and is not called by one. -/
theorem checkColumn_ok_iff {denied : List String} {column : Expr} :
    checkColumn E tree denied column = .ok () ↔ checkColumn E tree [] column = .ok () ∧
      (column.name ≠ "" → column.name ≠ "*" → E.schema.case.upper column.name ∉ denied) := by
  unfold checkColumn
  by_cases hskip : column.name = "" ∨ column.name = "*"
  · simp only [if_pos hskip, true_and, true_iff]
    exact fun hempty hstar => absurd hskip (not_or.mpr ⟨hempty, hstar⟩)
  · simp only [if_neg hskip, check_then_ok_iff, refuseIf_ok_iff, List.not_mem_nil, not_false_eq_true,
      true_and]
    have hnamed := not_or.mp hskip
    rw [and_comm]
    exact and_congr_right fun _ => ⟨fun h _ _ => h, fun h => h hnamed.1 hnamed.2⟩

/-- **The passes over denied names**, node by node. -/
theorem denialAllows_iff {denied : List String}
    (hbase : ∀ o ∈ findAll Cls.isColumn tree, checkColumn E tree [] o.node = .ok ()) :
    ((∀ o ∈ findAll Cls.isColumn tree, checkColumn E tree denied o.node = .ok ()) ∧
      checkDeniedStars E tree denied = .ok ()) ↔ ∀ o, InTree tree o → DenialAllows E tree denied o := by
  have hstars : checkDeniedStars E tree denied = .ok () ↔
      ∀ o ∈ findAll Cls.isStar tree, denied ≠ [] → checkDeniedStar E tree denied o = .ok () := by
    unfold checkDeniedStars
    by_cases hdenied : denied = []
    · simp [hdenied]
    · simp [hdenied]
  rw [hstars]
  constructor
  · rintro ⟨hcolumns, hstars⟩ o ho
    refine ⟨fun hcls => ?_, fun hcls => hstars o (mem_findAll.mpr ⟨ho, Cls.isStar_iff.mpr hcls⟩)⟩
    exact (checkColumn_ok_iff.mp (hcolumns o (mem_findAll.mpr ⟨ho, Cls.isColumn_iff.mpr hcls⟩))).2
  · refine fun hnodes => ⟨fun o ho => ?_, fun o ho => ?_⟩
    · obtain ⟨hin, hcls⟩ := mem_findAll.mp ho
      exact checkColumn_ok_iff.mpr ⟨hbase o ho, (hnodes o hin).column (Cls.isColumn_iff.mp hcls)⟩
    · obtain ⟨hin, hcls⟩ := mem_findAll.mp ho
      exact (hnodes o hin).star (Cls.isStar_iff.mp hcls)

/-- **The join-only pass**, node by node. -/
theorem joinOnlyAllows_iff {R : JoinOnlyRestrictions} :
    (R.byTable ≠ [] → enforceJoinOnly E.repr E.schema tree R = .ok ()) ↔
      ∀ o, InTree tree o → JoinOnlyAllows E tree R o := by
  unfold enforceJoinOnly
  simp only [check_then_ok_iff, checkAll_ok_iff]
  constructor
  · exact fun h o ho =>
      ⟨fun hcls hR => (h hR).1 o (mem_findAll.mpr ⟨ho, Cls.isColumn_iff.mpr hcls⟩),
        fun hcls hR => (h hR).2.1 o (mem_findAll.mpr ⟨ho, hcls⟩),
        fun hcls hR => (h hR).2.2 o (mem_findAll.mpr ⟨ho, Cls.isStar_iff.mpr hcls⟩)⟩
  · refine fun h hR => ⟨fun o ho => ?_, fun o ho => ?_, fun o ho => ?_⟩
    · obtain ⟨hin, hcls⟩ := mem_findAll.mp ho
      exact (h o hin).column (Cls.isColumn_iff.mp hcls) hR
    · obtain ⟨hin, hcls⟩ := mem_findAll.mp ho
      exact (h o hin).join hcls hR
    · obtain ⟨hin, hcls⟩ := mem_findAll.mp ho
      exact (h o hin).star (Cls.isStar_iff.mp hcls) hR

/-- The join-only part of a policy whose entries resolve. -/
theorem checkJoinOnly_guardPolicy_ok_iff {policy : ColumnPolicy} {R : JoinOnlyRestrictions}
    (hR : resolveJoinOnly E policy.joinOnly (executingSource E tree) = .ok R) :
    checkJoinOnly E tree (policy.guardPolicy E) = .ok () ↔
      (R.byTable ≠ [] → enforceJoinOnly E.repr E.schema tree R = .ok ()) := by
  unfold checkJoinOnly ColumnPolicy.guardPolicy
  by_cases hnone : policy.joinOnly = []
  · rw [hnone] at hR
    cases hR
    simp [hnone]
  · simp only [hnone, if_false, hR]
    split
    · rename_i hempty
      simp [hempty]
    · rename_i hne
      simp [hne]

/-- **Acceptance under a key's entries, node by node**, of a statement accepted without a policy. -/
theorem validateSqlWith_ok_iff {entries : List String} {policy : ColumnPolicy} {R : JoinOnlyRestrictions}
    (hbase : validateSqlWith E dialect [] [some tree] = .ok ())
    (hparse : parseColumnPolicy E.schema.case E.repr entries = .ok policy)
    (hR : resolveJoinOnly E policy.joinOnly (executingSource E tree) = .ok R) :
    validateSqlWith E dialect entries [some tree] = .ok () ↔
      (∀ o, InTree tree o → DenialAllows E tree policy.denied o) ∧
        ∀ o, InTree tree o → JoinOnlyAllows E tree R o := by
  have htree : validateTree E dialect {} tree = .ok () := hbase
  rw [validateTree_ok_iff] at htree
  obtain ⟨hroot, hnodes, hsingle, hcolumns, -, -, hprojection, htable⟩ := htree
  have hguard : validateSqlWith E dialect entries [some tree] =
      validateTree E dialect (policy.guardPolicy E) tree := by
    rw [validateSqlWith, hparse]
    rfl
  rw [hguard, validateTree_ok_iff, checkJoinOnly_guardPolicy_ok_iff hR, joinOnlyAllows_iff,
    ← denialAllows_iff hcolumns]
  show _ ↔ ((∀ o ∈ findAll Cls.isColumn tree, checkColumn E tree (policy.guardPolicy E).denied o.node = _) ∧
    checkDeniedStars E tree (policy.guardPolicy E).denied = _) ∧ _
  constructor
  · rintro ⟨-, -, -, hcolumns, hstars, hjoin, -, -⟩
    exact ⟨⟨hcolumns, hstars⟩, hjoin⟩
  · rintro ⟨⟨hcolumns, hstars⟩, hjoin⟩
    exact ⟨hroot, hnodes, hsingle, hcolumns, hstars, hjoin, hprojection, htable⟩

/-- An accepted statement's entries parse, and resolve for every source. -/
theorem policy_of_validateSqlWith {entries : List String}
    (h : validateSqlWith E dialect entries [some tree] = .ok ()) :
    ∃ policy, parseColumnPolicy E.schema.case E.repr entries = .ok policy ∧
      ∀ source, ∃ R, resolveJoinOnly E policy.joinOnly source = .ok R := by
  unfold validateSqlWith at h
  split at h
  · rename_i policy hparse
    refine ⟨policy, hparse, fun source => ?_⟩
    have htree : validateTree E dialect (policy.guardPolicy E) tree = .ok () := h
    rw [validateTree_ok_iff] at htree
    obtain ⟨-, -, -, -, -, hjoin, -, -⟩ := htree
    unfold checkJoinOnly ColumnPolicy.guardPolicy at hjoin
    by_cases hnone : policy.joinOnly = []
    · exact ⟨⟨[], fun _ h => absurd h List.not_mem_nil⟩, by rw [hnone]; rfl⟩
    · simp only [hnone, if_false] at hjoin
      have hsource : ∃ R, resolveJoinOnly E policy.joinOnly (executingSource E tree) = .ok R := by
        cases hR : resolveJoinOnly E policy.joinOnly (executingSource E tree) with
        | ok R => exact ⟨R, rfl⟩
        | error message =>
          rw [hR] at hjoin
          cases hjoin
      exact exists_resolveFrom_ok.mpr (exists_resolveFrom_ok.mp hsource)
  · simp only [List.filterMap_cons, id_eq, List.filterMap_nil, check_then_ok_iff, reduceCtorEq,
      and_false] at h

/-- What a key may ask, a key without restrictions may. -/
theorem validateSqlWith_nil_of_ok {entries : List String}
    (h : validateSqlWith E dialect entries [some tree] = .ok ()) :
    validateSqlWith E dialect [] [some tree] = .ok () := by
  obtain ⟨policy, hparse, -⟩ := policy_of_validateSqlWith h
  rw [validateSqlWith, hparse] at h
  have htree : validateTree E dialect (policy.guardPolicy E) tree = .ok () := h
  rw [validateTree_ok_iff] at htree
  obtain ⟨hroot, hnodes, hsingle, hcolumns, -, -, hprojection, htable⟩ := htree
  show validateTree E dialect {} tree = .ok ()
  rw [validateTree_ok_iff]
  exact ⟨hroot, hnodes, hsingle, fun o ho => (checkColumn_ok_iff.mp (hcolumns o ho)).1, rfl, rfl,
    hprojection, htable⟩

/-- Fewer denied names allow more. -/
theorem DenialAllows.mono {denied rest : List String} {o : ExprOcc} (h : DenialAllows E tree denied o)
    (hsub : rest ⊆ denied) : DenialAllows E tree rest o := by
  refine ⟨fun hcls hempty hstar hmem => h.column hcls hempty hstar (hsub hmem), fun hcls hne => ?_⟩
  have hdenied : denied ≠ [] := fun hnil => hne (List.subset_nil.mp (hnil ▸ hsub))
  obtain ⟨tables, htables, hall⟩ := checkDeniedStar_ok_iff.mp (h.star hcls hdenied)
  exact checkDeniedStar_ok_iff.mpr
    ⟨tables, htables, fun t ht c hc hmem => hall t ht c hc (hsub hmem)⟩

/-- A rejection over a column. -/
def OverColumn (e : Rejection) : Prop := e.reason = .deniedColumn ∨ e.reason = .joinOnlyColumn

/-- **A refusal is over a column**, of a statement accepted without a policy, while the entries parse and
resolve. -/
theorem validateSqlWith_refuses_columns {entries : List String} {policy : ColumnPolicy}
    {R : JoinOnlyRestrictions} (hbase : validateSqlWith E dialect [] [some tree] = .ok ())
    (hparse : parseColumnPolicy E.schema.case E.repr entries = .ok policy)
    (hR : resolveJoinOnly E policy.joinOnly (executingSource E tree) = .ok R) :
    FailsOnly OverColumn (validateSqlWith E dialect entries [some tree]) := by
  have htree : validateTree E dialect {} tree = .ok () := hbase
  rw [validateTree_ok_iff] at htree
  obtain ⟨hroot, hnodes, hsingle, hcolumns, -, -, hprojection, htable⟩ := htree
  have hguard : validateSqlWith E dialect entries [some tree] =
      validateTree E dialect (policy.guardPolicy E) tree := by
    rw [validateSqlWith, hparse]
    rfl
  have hok : ∀ x : Except Rejection Unit, x = .ok () → FailsOnly OverColumn x := fun x hx => by
    rw [hx]
    exact failsOnly_ok
  rw [hguard]
  unfold validateTree
  refine (hok _ hroot).bind fun _ => FailsOnly.bind ?_ fun _ => (hok _ hsingle).bind fun _ =>
    FailsOnly.bind ?_ fun _ => FailsOnly.bind ?_ fun _ => FailsOnly.bind ?_ fun _ =>
    FailsOnly.bind ?_ fun _ => hok _ htable
  · exact FailsOnly.checkAll fun o ho => hok _ (hnodes o (mem_walk_iff.mp ho))
  · refine FailsOnly.checkAll fun o ho => ?_
    -- without the denied names this column passes
    have hbase := hcolumns o ho
    unfold checkColumn at hbase ⊢
    dsimp only at hbase ⊢
    split
    · exact failsOnly_ok
    · rename_i hname
      simp only [if_neg hname, check_then_ok_iff] at hbase
      refine FailsOnly.bind ?_ fun _ => hok _ hbase.2
      exact failsOnly_refuseIf.mpr fun _ => Or.inl rfl
  · unfold checkDeniedStars
    split
    · exact failsOnly_ok
    · refine FailsOnly.checkAll fun o _ => ?_
      unfold checkDeniedStar
      simp only
      split
      · exact failsOnly_error.mpr (Or.inl rfl)
      · exact failsOnly_refuseIf.mpr fun _ => Or.inl rfl
  · unfold checkJoinOnly
    split
    · exact failsOnly_ok
    · rename_i resolve hresolve
      have hpolicy : resolve = resolveJoinOnly E policy.joinOnly := by
        simp only [ColumnPolicy.guardPolicy] at hresolve
        split at hresolve
        · cases hresolve
        · exact (Option.some.inj hresolve).symm
      rw [hpolicy, hR]
      dsimp only
      split
      · exact failsOnly_ok
      · exact enforceJoinOnly_failsOnly.mono fun e he => Or.inr he.1
  · exact FailsOnly.checkAll fun o ho => hok _ (hprojection o (mem_walk_iff.mp ho))

end LocalSqlAgent
