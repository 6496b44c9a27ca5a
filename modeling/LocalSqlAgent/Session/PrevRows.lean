import LocalSqlAgent.Session.Composer
import LocalSqlAgent.Sql.RowClauses

/-! # The rows behind the previous answer

What a follow-up reads through `_prev` should depend on the previous statement's `FROM`, joins and
`WHERE` alone, and be all the rows they select.

* **`PrevIsAllRows`**: two statements that differ in their display clauses only are stripped to one
  body, and the body selects their rows one by one.
* **`prevIsAllRows_iff`**: it holds exactly when neither statement has a `HAVING` or an `OFFSET` and
  no CTE inside a select list changes what a table of the `FROM` reads. -/

namespace LocalSqlAgent

/-- **Two selects differ in their display clauses only.** -/
structure SameRest (s s' : Expr) : Prop where
  /-- The node itself. -/
  label : s.label = s'.label
  /-- The `FROM`, the joins, the `WHERE`, the `WITH`. -/
  rest : restArgs s = restArgs s'

/-- **The body selects all the rows**: the rows of the statement's `FROM`, joins and `WHERE`, one by
one, whatever the clauses mean. -/
def SelectsAllRows (s body : Expr) : Prop :=
  ∀ (Row Out : Type) (sem : ClauseSemantics Row Out),
    sem.eval body = (sem.rows (restArgs s)).map fun r => sem.project (body.slot .expressions) [r]

/-- Nothing filters or cuts the rows after the clauses that are cleared. -/
def NoFilterLeft (s : Expr) : Prop := s.slot .having = [] ∧ s.slot .offset = []

namespace ComposerEnv

variable {C : ComposerEnv}

/-- The tree `_qualified_projection` reads. -/
def cleared (s : Expr) : Expr := s.dropArgs clearedArgs

/-- **`_prev` is all the rows behind the previous answer**, for two statements with the same rest. -/
def PrevIsAllRows (C : ComposerEnv) (s s' : Expr) : Prop :=
  C.stripTree s = C.stripTree s' ∧ SelectsAllRows s (C.stripTree s)

/-- A table of the `FROM` or of a join reads the same in both statements. -/
def TablesReadAlike (C : ComposerEnv) (s s' : Expr) : Prop :=
  ∀ t ∈ sources s, t.cls = .table →
    resolveTableName C.schema (cteNames C.schema.case (cleared s)) t =
      resolveTableName C.schema (cteNames C.schema.case (cleared s')) t

/-! ## Slots of the body -/

theorem slot_restArgs {s : Expr} {k : Arg} (hk : k ∉ displayArgs) :
    (RoseTree.node s.label (restArgs s)).slot k = s.slot k := by
  obtain ⟨l, cs⟩ := s
  refine slot_filter_of_mem fun e _ he => ?_
  rw [decide_eq_true_iff, he]
  exact hk

theorem slot_eq_of_sameRest {s s' : Expr} (h : SameRest s s') {k : Arg} (hk : k ∉ displayArgs) :
    s.slot k = s'.slot k := by
  rw [← slot_restArgs hk, h.label, h.rest, slot_restArgs hk]

theorem sources_eq_of_slots {s s' : Expr} (hfrom : s.slot .from_ = s'.slot .from_)
    (hjoins : s.slot .joins = s'.slot .joins) : sources s = sources s' := by
  rw [sources, sources, RoseTree.arg, RoseTree.arg, hfrom, hjoins]

theorem sources_cleared (s : Expr) : sources (cleared s) = sources s :=
  sources_eq_of_slots (slot_dropArgs_of_not_mem (by decide)) (slot_dropArgs_of_not_mem (by decide))

theorem sources_eq_of_sameRest {s s' : Expr} (h : SameRest s s') : sources s = sources s' :=
  sources_eq_of_slots (slot_eq_of_sameRest h (by decide)) (slot_eq_of_sameRest h (by decide))

theorem slot_stripTree_expressions (s : Expr) :
    (C.stripTree s).slot .expressions = C.qualifiedProjection (cleared s) := slot_setSlot_self

theorem slot_stripTree_cleared {s : Expr} {k : Arg} (hk : k ∈ clearedArgs) :
    (C.stripTree s).slot k = [] := by
  rw [stripTree, slot_setSlot_of_ne, slot_dropArgs_of_mem hk]
  rintro rfl
  exact absurd hk (by decide)

theorem slot_stripTree_kept {s : Expr} {k : Arg} (hk : k ∉ clearedArgs) (hne : k ≠ .expressions) :
    (C.stripTree s).slot k = s.slot k := by
  rw [stripTree, slot_setSlot_of_ne hne, slot_dropArgs_of_not_mem hk]

/-- The rewriting keeps the `FROM`, the joins, the `WHERE` and the `WITH`. -/
theorem restArgs_stripTree (s : Expr) : restArgs (C.stripTree s) = restArgs s := by
  rw [restArgs, restArgs, stripTree, RoseTree.setSlot, RoseTree.children_node, List.filter_append,
    List.filter_filter, RoseTree.dropArgs, RoseTree.children_node, List.filter_filter]
  have hnew : ((C.qualifiedProjection (.node s.label
      (s.children.filter fun e => e.1 ∉ clearedArgs))).map fun n => (Arg.expressions, n)).filter
        (fun e => e.1 ∉ displayArgs) = [] := by
    rw [List.filter_eq_nil_iff]
    intro e he
    obtain ⟨n, -, rfl⟩ := List.mem_map.mp he
    simp [displayArgs]
  rw [hnew, List.append_nil]
  refine List.filter_congr fun e _ => ?_
  by_cases hdisplay : e.1 ∈ displayArgs
  · simp [hdisplay]
  · have hexpressions : e.1 ≠ .expressions := fun h => hdisplay (by rw [h]; decide)
    have hcleared : e.1 ∉ clearedArgs := fun h => hdisplay (by
      simp only [clearedArgs, List.mem_cons, List.not_mem_nil, or_false] at h
      rcases h with h | h | h | h <;> rw [h] <;> decide)
    simp [hdisplay, hexpressions, hcleared]

/-! ## The projection -/

theorem orStar_of_ne_nil {es : List Expr} (h : es ≠ []) : orStar es = es := by
  rw [orStar, if_neg (by rwa [List.isEmpty_iff])]

theorem isPlain_sourceProjection {ctes : List String} {source e : Expr}
    (h : e ∈ C.sourceProjection ctes source) : IsPlain e := by
  rw [sourceProjection] at h
  split at h
  · split at h
    · rw [List.mem_singleton] at h
      subst h
      exact .inr (.inl rfl)
    · obtain ⟨column, -, rfl⟩ := List.mem_map.mp h
      exact .inr (.inr ⟨rfl, _, rfl, rfl⟩)
  · rw [List.mem_singleton] at h
    subst h
    exact .inl rfl

/-- The new select list computes on one row. -/
theorem isPlain_qualifiedProjection {tree e : Expr} (h : e ∈ C.qualifiedProjection tree) :
    IsPlain e := by
  rw [qualifiedProjection, orStar] at h
  split at h
  · rw [List.mem_singleton] at h
    subst h
    exact .inl rfl
  · obtain ⟨source, -, hmem⟩ := List.mem_flatMap.mp h
    exact isPlain_sourceProjection hmem

theorem sourceProjection_ne_nil (ctes : List String) (source : Expr) :
    C.sourceProjection ctes source ≠ [] := by
  rw [sourceProjection]
  split
  · split
    · exact List.cons_ne_nil _ _
    · rename_i t hresolved
      have hcolumns := C.schema.columns_ne_nil t (mem_tables_of_resolveTableName hresolved)
      exact fun hnil => hcolumns (List.map_eq_nil_iff.mp hnil)
  · exact List.cons_ne_nil _ _

/-- The projections of a source tell how its table reads. -/
theorem sourceProjection_head_inj {ctes ctes' : List String} {source : Expr}
    (htable : source.cls = .table)
    (h : (C.sourceProjection ctes source).head? = (C.sourceProjection ctes' source).head?) :
    resolveTableName C.schema ctes source = resolveTableName C.schema ctes' source := by
  have hclass : ∀ (cs : List String) (t : SchemaTable),
      resolveTableName C.schema cs source = some t →
        ∃ e, (C.sourceProjection cs source).head? = some e ∧ e.cls = .alias := by
    intro cs t ht
    have hcolumns := C.schema.columns_ne_nil t (mem_tables_of_resolveTableName ht)
    rw [sourceProjection, if_pos htable, ht]
    simp only
    cases hcase : t.columns with
    | nil => exact absurd hcase hcolumns
    | cons column rest => exact ⟨_, rfl, rfl⟩
  have hstar : ∀ cs, resolveTableName C.schema cs source = none →
      (C.sourceProjection cs source).head? = some (C.qualifiedStar source.aliasOrName) := by
    intro cs hnone
    rw [sourceProjection, if_pos htable, hnone]
    rfl
  cases ht : resolveTableName C.schema ctes source with
  | none =>
    cases ht' : resolveTableName C.schema ctes' source with
    | none => rfl
    | some t' =>
      obtain ⟨e, he, hcls⟩ := hclass ctes' t' ht'
      rw [hstar ctes ht, he, Option.some.injEq] at h
      rw [← h] at hcls
      cases hcls
  | some t =>
    cases ht' : resolveTableName C.schema ctes' source with
    | none =>
      obtain ⟨e, he, hcls⟩ := hclass ctes t ht
      rw [hstar ctes' ht', he, Option.some.injEq] at h
      rw [h] at hcls
      cases hcls
    | some t' =>
      have hcanonical := canonical_of_resolveTableName ht
      rwa [canonical_of_resolveTableName ht', eq_comm] at hcanonical

theorem sourceProjection_congr {ctes ctes' : List String} {source : Expr}
    (h : source.cls = .table → resolveTableName C.schema ctes source =
      resolveTableName C.schema ctes' source) :
    C.sourceProjection ctes source = C.sourceProjection ctes' source := by
  rw [sourceProjection, sourceProjection]
  by_cases htable : source.cls = .table
  · rw [if_pos htable, if_pos htable, h htable]
  · rw [if_neg htable, if_neg htable]

/-- Two maps to nonempty lists that disagree at their heads where they disagree at all agree
everywhere once their concatenations do. -/
theorem eq_of_flatMap_eq {α β : Type*} {f g : α → List β} {l : List α} (hf : ∀ a, f a ≠ [])
    (hg : ∀ a, g a ≠ []) (hhead : ∀ a ∈ l, (f a).head? = (g a).head? → f a = g a)
    (h : l.flatMap f = l.flatMap g) : ∀ a ∈ l, f a = g a := by
  induction l with
  | nil => nofun
  | cons a rest ih =>
    rw [List.flatMap_cons, List.flatMap_cons] at h
    have hheads : (f a).head? = (g a).head? := by
      have hboth := congrArg List.head? h
      rwa [List.head?_append_of_ne_nil _ (hf a), List.head?_append_of_ne_nil _ (hg a)] at hboth
    have hsame := hhead a List.mem_cons_self hheads
    rw [hsame, List.append_cancel_left_eq] at h
    intro b hb
    rcases List.mem_cons.mp hb with rfl | hb
    · exact hsame
    · exact ih (fun c hc => hhead c (List.mem_cons_of_mem _ hc)) h b hb

/-- **The new select list is determined by how the tables read, and determines it.** -/
theorem qualifiedProjection_eq_iff {s s' : Expr} (hsources : sources s = sources s') :
    C.qualifiedProjection (cleared s) = C.qualifiedProjection (cleared s') ↔
      C.TablesReadAlike s s' := by
  rw [qualifiedProjection, qualifiedProjection, sources_cleared, sources_cleared, ← hsources]
  constructor
  · intro h t ht htable
    have hne : ∀ cs, (sources s).flatMap (C.sourceProjection cs) ≠ [] := fun cs hempty =>
      sourceProjection_ne_nil cs t (List.flatMap_eq_nil_iff.mp hempty t ht)
    rw [orStar_of_ne_nil (hne _), orStar_of_ne_nil (hne _)] at h
    have hpointwise := eq_of_flatMap_eq (fun a => sourceProjection_ne_nil _ a)
      (fun a => sourceProjection_ne_nil _ a) (fun a _ hheads => sourceProjection_congr fun htable =>
        sourceProjection_head_inj htable hheads) h t ht
    exact sourceProjection_head_inj htable (by rw [hpointwise])
  · intro h
    rw [List.flatMap_congr fun t ht => sourceProjection_congr (h t ht)]

/-! ## The body -/

/-- A `HAVING` or an `OFFSET` that is left hides rows. -/
theorem noFilterLeft_of_selectsAllRows {s : Expr} (h : SelectsAllRows s (C.stripTree s)) :
    NoFilterLeft s := by
  by_contra hleft
  rw [NoFilterLeft, not_and_or] at hleft
  have hslots : (C.stripTree s).slot .having ≠ [] ∨ (C.stripTree s).slot .offset ≠ [] := by
    rwa [slot_stripTree_kept (by decide) (by decide), slot_stripTree_kept (by decide) (by decide)]
  have hall := h Unit Unit hideAll
  rw [hideAll_eval hslots] at hall
  cases hall

/-- **Without a `HAVING` and an `OFFSET` the body is all the rows**, cut by its `limit` alone. -/
theorem eval_body {s body : Expr} (hs : NoFilterLeft s)
    (hslots : ∀ k, k ≠ .limit → body.slot k = (C.stripTree s).slot k) {Row Out : Type}
    (sem : ClauseSemantics Row Out) :
    sem.eval body = whenGiven (body.slot .limit) sem.limit
      ((sem.rows (restArgs body)).map fun r => sem.project (body.slot .expressions) [r]) := by
  have hplain : ∀ e ∈ body.slot .expressions, IsPlain e := by
    rw [hslots _ (by decide), slot_stripTree_expressions]
    exact fun e he => isPlain_qualifiedProjection he
  have hoffset : body.slot .offset = [] := by
    rw [hslots _ (by decide), slot_stripTree_kept (by decide) (by decide), hs.2]
  rw [sem.eval_of_plain _ _ hplain _ _, hoffset]
  · rfl
  · rw [hslots _ (by decide), slot_stripTree_cleared (by decide)]
  · rw [hslots _ (by decide), slot_stripTree_kept (by decide) (by decide), hs.1]
  · rw [hslots _ (by decide), slot_stripTree_cleared (by decide)]
  · rw [hslots _ (by decide), slot_stripTree_cleared (by decide)]

theorem selectsAllRows_iff {s : Expr} : SelectsAllRows s (C.stripTree s) ↔ NoFilterLeft s := by
  constructor
  · exact noFilterLeft_of_selectsAllRows
  · intro hs Row Out sem
    rw [eval_body hs (fun _ _ => rfl) sem, slot_stripTree_cleared (by decide), restArgs_stripTree]
    rfl

/-- What is left of the children once the cleared ones and the select list are gone. -/
theorem keptArgs_eq_restArgs {s : Expr} (hs : NoFilterLeft s) :
    ((cleared s).children.filter fun e => e.1 ≠ .expressions) = restArgs s := by
  rw [cleared, RoseTree.dropArgs, RoseTree.children_node, List.filter_filter, restArgs]
  refine List.filter_congr fun e he => ?_
  have hnot : e.1 ≠ .having ∧ e.1 ≠ .offset := by
    constructor
    · intro hk
      have hmem : e.2 ∈ s.slot .having := RoseTree.mem_slot.mpr (hk ▸ he)
      rw [hs.1] at hmem
      cases hmem
    · intro hk
      have hmem : e.2 ∈ s.slot .offset := RoseTree.mem_slot.mpr (hk ▸ he)
      rw [hs.2] at hmem
      cases hmem
  obtain ⟨k, c⟩ := e
  cases k <;> simp_all [displayArgs, clearedArgs]

/-- **`_prev` is all the rows behind the previous answer exactly when** neither statement has a
`HAVING` or an `OFFSET` and the tables of the `FROM` and the joins read alike in both. -/
theorem prevIsAllRows_iff {s s' : Expr} (h : SameRest s s') :
    C.PrevIsAllRows s s' ↔ NoFilterLeft s ∧ NoFilterLeft s' ∧ C.TablesReadAlike s s' := by
  have hprojection := qualifiedProjection_eq_iff (C := C) (sources_eq_of_sameRest h)
  constructor
  · rintro ⟨hbody, hrows⟩
    have hs := noFilterLeft_of_selectsAllRows hrows
    have hslot : ∀ k, k ∉ clearedArgs → k ≠ .expressions → s.slot k = s'.slot k := by
      intro k hk hne
      rw [← slot_stripTree_kept (C := C) hk hne, hbody, slot_stripTree_kept hk hne]
    refine ⟨hs, ⟨?_, ?_⟩, hprojection.mp ?_⟩
    · rw [← hslot _ (by decide) (by decide), hs.1]
    · rw [← hslot _ (by decide) (by decide), hs.2]
    · rw [← slot_stripTree_expressions, ← slot_stripTree_expressions, hbody]
  · rintro ⟨hs, hs', halike⟩
    refine ⟨?_, selectsAllRows_iff.mpr hs⟩
    show (cleared s).setSlot .expressions (C.qualifiedProjection (cleared s)) =
      (cleared s').setSlot .expressions (C.qualifiedProjection (cleared s'))
    rw [RoseTree.setSlot, RoseTree.setSlot, keptArgs_eq_restArgs hs, keptArgs_eq_restArgs hs',
      h.rest, hprojection.mpr halike]
    exact congrArg (fun l => RoseTree.node l _) h.label

/-! ## A filter left behind -/

end ComposerEnv

/-- The composer of the small deployment. -/
def salesComposer : ComposerEnv := ⟨salesSchema, fun _ => false⟩

section Examples

open Expr

/-- `SELECT TOP 5 c.Name FROM sales.Customer AS c`, with further clauses. -/
def customerNames (clauses : List (Arg × Expr)) : Expr :=
  .ofCls .select ([(.limit, .ofCls .limit [(.expression, .ofCls (.literal "5" false))]),
    (.expressions, columnRef "c" "Name"),
    (.from_, .ofCls .fromClause [(.this, tableRef "sales" "Customer" "c")])] ++ clauses)

/-- `GROUP BY c.Name`. -/
def byName : Arg × Expr := (.group, .ofCls .group [(.expressions, columnRef "c" "Name")])

/-- `HAVING COUNT(*) > 5`. -/
def moreThanFive : Arg × Expr :=
  (.having, .ofCls .having [(.this, .ofCls (.other "GT")
    [(.this, .ofCls .count [(.this, .ofCls .star)]),
     (.expression, .ofCls (.literal "5" false))])])

/-- **The `HAVING` of the previous statement stays in `_prev`**: the two statements differ in their
`GROUP BY` and `HAVING` only, and are stripped to different bodies. -/
theorem having_not_prevIsAllRows :
    SameRest (customerNames [byName, moreThanFive]) (customerNames []) ∧
      ¬ salesComposer.PrevIsAllRows (customerNames [byName, moreThanFive]) (customerNames []) := by
  refine ⟨⟨rfl, rfl⟩, fun h => ?_⟩
  have hleft := ComposerEnv.noFilterLeft_of_selectsAllRows h.2
  cases hleft.1

/-- A `GROUP BY` alone is cleared. -/
theorem group_prevIsAllRows :
    salesComposer.PrevIsAllRows (customerNames [byName]) (customerNames []) :=
  (ComposerEnv.prevIsAllRows_iff ⟨rfl, rfl⟩).mpr ⟨⟨rfl, rfl⟩, ⟨rfl, rfl⟩, fun _ _ _ => rfl⟩

end Examples

end LocalSqlAgent
