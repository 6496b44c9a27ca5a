import LocalSqlAgent.Security.PolicyNodes
import LocalSqlAgent.Session.RefinementChain

/-! # Refinements under a column policy

The projection the composer writes for `_prev` names every column of every joined table, whatever the
previous statement named, and the composed text goes through the guard again.

* **`Generated`**: the nodes of a composed statement that the composer wrote into the select list.
* **`FollowUp`**: a refinement of an allowed statement in which nothing but that select list offends.
* **`followUp_never_refused_iff`**: it is never refused over a column exactly when every source of the
  previous statement's `FROM` list may be projected whole. -/

namespace LocalSqlAgent

open ComposerEnv

/-- The composer over the guard's schema. -/
def GuardEnv.composer (E : GuardEnv) (quoted : String → Bool) : ComposerEnv where
  schema := E.schema
  quoted := quoted

/-! ## Where the generated select list stands -/

section Place

variable (C : ComposerEnv) (cap : Nat) (prev outer next : Expr)

/-- The frames above the body of `_prev`. -/
def bodyFrames : List (Frame NodeLabel Arg) :=
  let body := C.cappedPredicate cap prev
  [⟨prevCte body, .this, []⟩, ⟨prevWith body, .expressions, []⟩,
    ⟨next, .with_, outer.children.filter fun e => e.1 ≠ .with_⟩]

/-- The frames above an item of its select list. -/
def itemFrames (before : List (Arg × Expr)) : List (Frame NodeLabel Arg) :=
  ⟨C.cappedPredicate cap prev, .expressions, before⟩ :: bodyFrames C cap prev outer next

/-- **A node the composer generated**: an item of the body's select list or a node below one. -/
def Generated (o : ExprOcc) : Prop :=
  ∃ above before, o.frames = above ++ itemFrames C cap prev outer next before

variable {C cap prev outer next}

theorem inTree_body (h : C.composeRefinement cap prev outer = .ok next) :
    InTree next ⟨C.cappedPredicate cap prev, bodyFrames C cap prev outer next⟩ := by
  generalize hbody : C.cappedPredicate cap prev = body
  have hchildren : next.children =
      (outer.children.filter fun e => e.1 ≠ .with_) ++ (.with_, prevWith body) :: [] := by
    rw [(compose_ok h).2, hbody]
    rfl
  have hwith : InTree next
      ⟨prevWith body, [⟨next, .with_, outer.children.filter fun e => e.1 ≠ .with_⟩]⟩ :=
    InTree.root.child (Occ.mem_children.mpr ⟨_, _, _, _, hchildren, rfl⟩)
  have hcte : InTree next ⟨prevCte body, ⟨prevWith body, .expressions, []⟩ ::
      [⟨next, .with_, outer.children.filter fun e => e.1 ≠ .with_⟩]⟩ :=
    hwith.child (Occ.mem_children.mpr ⟨_, _, [], [], rfl, rfl⟩)
  have hinner : InTree next ⟨body, ⟨prevCte body, .this, []⟩ :: ⟨prevWith body, .expressions, []⟩ ::
      [⟨next, .with_, outer.children.filter fun e => e.1 ≠ .with_⟩]⟩ :=
    hcte.child (Occ.mem_children.mpr ⟨_, _, [], [(.alias, prevAlias)], rfl, rfl⟩)
  unfold bodyFrames
  rw [hbody]
  exact hinner

theorem slot_cappedPredicate_expressions :
    (C.cappedPredicate cap prev).slot .expressions = C.qualifiedProjection (cleared prev) := by
  rw [cappedPredicate, slot_setSlot_of_ne (by decide), slot_stripTree_expressions]

theorem sources_cappedPredicate : sources (C.cappedPredicate cap prev) = sources prev := by
  refine sources_eq_of_slots ?_ ?_
  · rw [cappedPredicate, slot_setSlot_of_ne (by decide), slot_stripTree_kept (by decide) (by decide)]
  · rw [cappedPredicate, slot_setSlot_of_ne (by decide), slot_stripTree_kept (by decide) (by decide)]

theorem cls_cappedPredicate (h : C.composeRefinement cap prev outer = .ok next) :
    (C.cappedPredicate cap prev).cls = .select := by
  have hselect := prev_cls h
  exact hselect

/-- **A generated node lies in an item of the projection.** -/
theorem generated_cases {o : ExprOcc} (ho : InTree next o) (hg : Generated C cap prev outer next o) :
    ∃ item ∈ C.qualifiedProjection (cleared prev), ∃ o', InTree item o' ∧ ∃ before,
      InTree next ⟨item, itemFrames C cap prev outer next before⟩ ∧
      o = ⟨o'.node, o'.frames ++ itemFrames C cap prev outer next before⟩ := by
  obtain ⟨n, frames⟩ := o
  obtain ⟨above, before, hframes⟩ := hg
  dsimp only at hframes
  subst hframes
  induction above generalizing n with
  | nil =>
    obtain ⟨post, hchildren⟩ := InTree.frame ho
    refine ⟨n, ?_, Occ.root n, InTree.root, before, ho, rfl⟩
    rw [← @slot_cappedPredicate_expressions C cap prev]
    refine RoseTree.mem_slot.mpr ?_
    rw [hchildren]
    simp
  | cons f above ih =>
    obtain ⟨item, hitem, o', ho', before', hroot, heq⟩ := ih f.parent ho.above
    obtain ⟨post, hchildren⟩ := InTree.frame ho
    refine ⟨item, hitem, ⟨n, f :: o'.frames⟩, ?_, before', hroot, ?_⟩
    · refine ho'.child (Occ.mem_children.mpr ⟨f.key, n, f.before, post, ?_, ?_⟩)
      · rw [← hchildren]
        exact congrArg (fun o : ExprOcc => o.node.children) heq.symm
      · have hparent : f.parent = o'.node := congrArg (fun o : ExprOcc => o.node) heq
        rw [← hparent]
    · have hrest := congrArg (fun o : ExprOcc => o.frames) heq
      dsimp only at hrest
      rw [List.cons_append, List.cons_append, hrest]

/-- Every node of an item stands in the composed statement. -/
theorem exists_generated (h : C.composeRefinement cap prev outer = .ok next) {item : Expr}
    (hitem : item ∈ C.qualifiedProjection (cleared prev)) {o' : ExprOcc} (ho' : InTree item o') :
    ∃ before, InTree next ⟨o'.node, o'.frames ++ itemFrames C cap prev outer next before⟩ := by
  rw [← @slot_cappedPredicate_expressions C cap prev] at hitem
  obtain ⟨before, hroot⟩ := (inTree_body h).exists_child (RoseTree.mem_slot.mp hitem)
  refine ⟨before, ?_⟩
  induction ho' with
  | root => exact hroot
  | @child o c _ hc ih =>
    obtain ⟨k, n, pre, post, hchildren, rfl⟩ := Occ.mem_children.mp hc
    exact ih.child (Occ.mem_children.mpr ⟨k, n, pre, post, hchildren, rfl⟩)

end Place

/-! ## What a source may be projected as -/

section Sources

variable (E : GuardEnv) (prev next : Expr) (denied : List String) (R : JoinOnlyRestrictions)

/-- The tables the guard knows under a label of the previous statement's `FROM` list. -/
def labelledTables (label : String) : List SchemaTable :=
  ((scopeNames E.schema (cteNames E.schema.case next) prev).filter
    (·.1 = E.schema.case.lower label)).filterMap (·.2)

/-- The selects around a select that is the body of the statement's leading CTE. -/
def outerScopes : List Expr := if next.cls = .select then [next] else []

/-- The tables a projected column of a label may be restricted on; a source without a label is named by
its column alone. -/
def tablesBehind (label column : String) : List SchemaTable :=
  if label = "" then
    unqualifiedTables E.schema (cteNames E.schema.case next) R (E.schema.case.lower column)
      (prev :: outerScopes next)
  else (labelledTables E prev next label).filter fun t => (R.entry E.schema.case t column).isSome

/-- **A known table may be projected whole**: none of its columns is denied, and none restricted on a
table of the label. -/
def ColumnsAllowed (label : String) (columns : List String) : Prop :=
  ∀ c ∈ columns, c ≠ "" → c ≠ "*" → E.schema.case.upper c ∉ denied ∧
    (E.schema.case.lower c ∈ R.names → tablesBehind E prev next R label c = [])

/-- **An unknown table may be projected as `label.*`**: where names are denied, the label is that of a
known table without a denied column; and no table of the label restricts one. -/
def LabelStarAllowed (label : String) : Prop :=
  (denied ≠ [] → ∃ t, aliasLookup (tableAliasMap E.schema next) (E.schema.case.lower label) = some t ∧
    ∀ c ∈ E.schema.columnsByTable t, E.schema.case.upper c ∉ denied) ∧
  ∀ t ∈ labelledTables E prev next label, R.columnsOf t.key = []

/-- **A bare `*` may be written**: where names are denied, every source is a known table without a denied
column; where columns are restricted, every source can be enumerated and none has one. -/
def BareStarAllowed : Prop :=
  (denied ≠ [] → ∃ tables,
    (sources prev).mapM (sourceTable E.schema (cteNames E.schema.case next)) = some tables ∧
      ∀ t ∈ tables, ∀ c ∈ E.schema.columnsByTable t, E.schema.case.upper c ∉ denied) ∧
  (R.byTable ≠ [] →
    (expandBareStar E.schema (cteNames E.schema.case next) (some prev)).unresolved = false ∧
    ∀ t ∈ scopeTables E.schema (cteNames E.schema.case next) prev, R.columnsOf t.key = [])

/-- **A source may be projected** the way the composer does it. -/
def SourceAllowed (source : Expr) : Prop :=
  if source.cls = .table then
    match resolveTableName E.schema (cteNames E.schema.case (cleared prev)) source with
    | some t => ColumnsAllowed E prev next denied R source.aliasOrName t.columns
    | none => if source.aliasOrName = "" then BareStarAllowed E prev next denied R
      else LabelStarAllowed E prev next denied R source.aliasOrName
  else BareStarAllowed E prev next denied R

end Sources

/-! ## The guard on a generated node -/

section Guard

variable {E : GuardEnv} {quoted : String → Bool} {cap : Nat} {prev outer next : Expr}
  {denied : List String} {R : JoinOnlyRestrictions}

/-- The nodes above an item are the body and the composed statement, and what is no select. -/
theorem enclosingSelects_item (h : (E.composer quoted).composeRefinement cap prev outer = .ok next)
    {n : Expr} {before : List (Arg × Expr)} :
    (enclosingSelects ⟨n, itemFrames (E.composer quoted) cap prev outer next before⟩).map (·.node) =
      (E.composer quoted).cappedPredicate cap prev :: outerScopes next := by
  have hbody := cls_cappedPredicate h
  unfold enclosingSelects itemFrames bodyFrames outerScopes
  generalize (E.composer quoted).cappedPredicate cap prev = body at hbody
  simp only [Occ.ancestors, Occ.above]
  have hcte : (prevCte body).cls.isSelect = false := rfl
  have hwith : (prevWith body).cls.isSelect = false := rfl
  by_cases hnext : next.cls = .select
  · simp [hbody, hcte, hwith, hnext]
  · have hno : next.cls.isSelect = false := by
      rw [Bool.eq_false_iff]
      exact fun hyes => hnext (Cls.isSelect_iff.mp hyes)
    simp [hbody, hcte, hwith, hnext, hno]

theorem scopeTables_body {ctes : List String} :
    scopeTables E.schema ctes ((E.composer quoted).cappedPredicate cap prev) =
      scopeTables E.schema ctes prev := by
  have hsources : directFromSources ((E.composer quoted).cappedPredicate cap prev) =
      directFromSources prev := sources_cappedPredicate
  unfold scopeTables
  rw [hsources]

theorem scopeNames_body {ctes : List String} :
    scopeNames E.schema ctes ((E.composer quoted).cappedPredicate cap prev) =
      scopeNames E.schema ctes prev := by
  have hsources : directFromSources ((E.composer quoted).cappedPredicate cap prev) =
      directFromSources prev := sources_cappedPredicate
  unfold scopeNames
  rw [hsources]

/-- The guard finds a source's label in the body. -/
theorem qualifiedTables_body {source : Expr} (hsource : source ∈ sources prev) (hcls : source.cls = .table)
    (hlabel : source.aliasOrName ≠ "") {outers : List Expr} :
    qualifiedTables E.schema (cteNames E.schema.case next) (E.schema.case.lower source.aliasOrName)
      ((E.composer quoted).cappedPredicate cap prev :: outers) =
        some (labelledTables E prev next source.aliasOrName) := by
  have hname : sourceLabel E.schema.case source = E.schema.case.lower source.aliasOrName := by
    rw [sourceLabel, if_pos hcls]
    rfl
  have hne : E.schema.case.lower source.aliasOrName ≠ "" := fun hempty =>
    hlabel ((E.schema.case.lower_eq_empty _).mp hempty)
  have hmem : E.schema.case.lower source.aliasOrName ∈
      (scopeNames E.schema (cteNames E.schema.case next) prev).map (·.1) := by
    refine List.mem_map.mpr ⟨(sourceLabel E.schema.case source, _),
      List.mem_filter.mpr ⟨List.mem_map.mpr ⟨source, hsource, rfl⟩, ?_⟩, hname⟩
    rw [decide_eq_true_iff, hname]
    exact hne
  unfold qualifiedTables
  simp only [scopeNames_body, if_pos hmem]
  rfl

/-- One frame of a node that is no select changes nothing above it. -/
theorem enclosingSelects_cons {n : Expr} {f : Frame NodeLabel Arg} {frames : List (Frame NodeLabel Arg)}
    (hf : f.parent.cls.isSelect = false) :
    enclosingSelects ⟨n, f :: frames⟩ = enclosingSelects ⟨f.parent, frames⟩ := by
  rw [enclosingSelects, Occ.ancestors_cons, List.filter_cons, hf]
  rfl

/-- The column inside a projected column. -/
def projectedOcc (C : ComposerEnv) (label column : String) (frames : List (Frame NodeLabel Arg)) : ExprOcc :=
  ⟨.ofCls .column [(.this, C.toIdentifier column), (.table, C.toIdentifier label)],
    ⟨C.projectedColumn label column, .this, []⟩ :: frames⟩

/-- The star of a `label.*`. -/
def starOcc (C : ComposerEnv) (label : String) (frames : List (Frame NodeLabel Arg)) : ExprOcc :=
  ⟨.ofCls .star, ⟨C.qualifiedStar label, .this, []⟩ :: frames⟩

theorem restrictedTablesOf_projected (h : (E.composer quoted).composeRefinement cap prev outer = .ok next)
    {source : Expr} (hsource : source ∈ sources prev) (hcls : source.cls = .table) {c : String}
    {before : List (Arg × Expr)} :
    restrictedTablesOf E.schema next R (projectedOcc (E.composer quoted) source.aliasOrName c
      (itemFrames (E.composer quoted) cap prev outer next before)) =
        tablesBehind E prev next R source.aliasOrName c := by
  generalize hocc : projectedOcc (E.composer quoted) source.aliasOrName c
    (itemFrames (E.composer quoted) cap prev outer next before) = o
  have hname : o.node.name = c := by rw [← hocc]; rfl
  have hqualifier : o.node.qualifier = source.aliasOrName := by rw [← hocc]; rfl
  have hscopes : (enclosingSelects o).map (·.node) =
      (E.composer quoted).cappedPredicate cap prev :: outerScopes next := by
    rw [← hocc, projectedOcc, enclosingSelects_cons rfl, enclosingSelects_item h]
  unfold restrictedTablesOf tablesBehind
  simp only [hname, hqualifier, hscopes]
  by_cases hlabel : source.aliasOrName = ""
  · have hempty : E.schema.case.lower source.aliasOrName = "" := (E.schema.case.lower_eq_empty _).mpr hlabel
    rw [if_pos hlabel, if_neg (not_not.mpr hempty), if_neg (List.cons_ne_nil _ _), unqualifiedTables,
      unqualifiedTables, scopeTables_body]
  · have hne : E.schema.case.lower source.aliasOrName ≠ "" := fun hempty =>
      hlabel ((E.schema.case.lower_eq_empty _).mp hempty)
    rw [if_neg hlabel, if_pos hne, qualifiedTables_body hsource hcls hlabel]
    simp only [R.entry_lower]

/-- The guard on a projected column. -/
theorem checkJoinOnlyColumn_projected (h : (E.composer quoted).composeRefinement cap prev outer = .ok next)
    {source : Expr} (hsource : source ∈ sources prev) (hcls : source.cls = .table) {c : String}
    {before : List (Arg × Expr)} :
    checkJoinOnlyColumn E.schema next R (projectedOcc (E.composer quoted) source.aliasOrName c
      (itemFrames (E.composer quoted) cap prev outer next before)) = .ok () ↔
        (c ≠ "" → c ≠ "*" → E.schema.case.lower c ∈ R.names →
          tablesBehind E prev next R source.aliasOrName c = []) := by
  have hname : (projectedOcc (E.composer quoted) source.aliasOrName c
      (itemFrames (E.composer quoted) cap prev outer next before)).node.name = c := rfl
  have hoperand : isJoinKeyOperand (projectedOcc (E.composer quoted) source.aliasOrName c
      (itemFrames (E.composer quoted) cap prev outer next before)) = false := rfl
  unfold checkJoinOnlyColumn
  simp only [hname, restrictedTablesOf_projected h hsource hcls, hoperand]
  by_cases hskip : c = "" ∨ c = "*" ∨ E.schema.case.lower c ∉ R.names
  · simp only [if_pos hskip, true_iff]
    intro hempty hstar hnamed
    rcases hskip with hskip | hskip | hskip
    exacts [absurd hskip hempty, absurd hskip hstar, absurd hnamed hskip]
  · simp only [if_neg hskip]
    obtain ⟨hempty, hrest⟩ := not_or.mp hskip
    obtain ⟨hstar, hnamed⟩ := not_or.mp hrest
    cases tablesBehind E prev next R source.aliasOrName c with
    | nil => simp
    | cons t rest => simp [hempty, hstar, not_not.mp hnamed]

/-- The guard on the star of a labelled source. -/
theorem labelStar_allowed_iff (h : (E.composer quoted).composeRefinement cap prev outer = .ok next)
    {source : Expr} (hsource : source ∈ sources prev) (hcls : source.cls = .table)
    (hlabel : source.aliasOrName ≠ "") {before : List (Arg × Expr)} :
    ((denied ≠ [] → checkDeniedStar E next denied (starOcc (E.composer quoted) source.aliasOrName
        (itemFrames (E.composer quoted) cap prev outer next before)) = .ok ()) ∧
      (R.byTable ≠ [] → checkJoinOnlyStar E.repr E.schema next R (starOcc (E.composer quoted)
        source.aliasOrName (itemFrames (E.composer quoted) cap prev outer next before)) = .ok ())) ↔
      LabelStarAllowed E prev next denied R source.aliasOrName := by
  generalize hframes : itemFrames (E.composer quoted) cap prev outer next before = frames
  have hqualifier : starQualifier (starOcc (E.composer quoted) source.aliasOrName frames) =
      some ⟨(E.composer quoted).qualifiedStar source.aliasOrName, frames⟩ := if_pos ⟨rfl, hlabel⟩
  have hcolumn : ((E.composer quoted).qualifiedStar source.aliasOrName).qualifier =
      source.aliasOrName := rfl
  have hcount : isCountStar (starOcc (E.composer quoted) source.aliasOrName frames) = false := rfl
  have hscopes : (enclosingSelects ⟨(E.composer quoted).qualifiedStar source.aliasOrName, frames⟩).map
      (·.node) = (E.composer quoted).cappedPredicate cap prev :: outerScopes next := by
    rw [← hframes, enclosingSelects_item h]
  refine and_congr (imp_congr_right fun _ => ?_) ?_
  · unfold checkDeniedStar
    simp only [hqualifier, hcolumn]
    cases aliasLookup (tableAliasMap E.schema next) (E.schema.case.lower source.aliasOrName) with
    | none => simp
    | some t =>
      have hexposed := @exposed_eq_nil_iff E denied [t]
      simp only [Option.map_some, refuseIf_ok_iff, ne_eq, hexposed, not_not, List.forall_mem_singleton,
        Option.some.injEq, exists_eq_left']
  · have hentries := @entries_eq_nil_iff R (labelledTables E prev next source.aliasOrName)
    unfold checkJoinOnlyStar expandStar
    simp only [hcount, hqualifier, hcolumn, hscopes, qualifiedTables_body hsource hcls hlabel,
      Bool.false_eq_true, if_false, check_then_ok_iff, refuseIf_ok_iff, not_false_eq_true, and_true, ne_eq,
      hentries, not_not]
    refine ⟨fun hall => ?_, fun hall _ => hall⟩
    by_cases hempty : R.byTable = []
    · intro t _
      rw [JoinOnlyRestrictions.columnsOf, hempty]
      rfl
    · exact hall hempty

/-- The guard on a bare star of the body. -/
theorem bareStar_allowed_iff {o : ExprOcc} (hqualifier : starQualifier o = none)
    (hcount : isCountStar o = false) (hscopes : (enclosingSelects o).map (·.node) =
      (E.composer quoted).cappedPredicate cap prev :: outerScopes next) :
    ((denied ≠ [] → checkDeniedStar E next denied o = .ok ()) ∧
      (R.byTable ≠ [] → checkJoinOnlyStar E.repr E.schema next R o = .ok ())) ↔
      BareStarAllowed E prev next denied R := by
  have hselect : (enclosingSelect o).map (·.node) = some ((E.composer quoted).cappedPredicate cap prev) := by
    rw [enclosingSelect, ← List.head?_map, hscopes]
    rfl
  have hsources : directFromSources ((E.composer quoted).cappedPredicate cap prev) = sources prev :=
    sources_cappedPredicate
  refine and_congr (imp_congr_right fun _ => ?_) (imp_congr_right fun _ => ?_)
  · unfold checkDeniedStar
    simp only [hqualifier, hselect, resolveStarTables, hsources]
    cases (sources prev).mapM (sourceTable E.schema (cteNames E.schema.case next)) with
    | none => simp
    | some tables =>
      have hexposed := @exposed_eq_nil_iff E denied tables
      simp only [refuseIf_ok_iff, ne_eq, hexposed, not_not, Option.some.injEq, exists_eq_left']
  · have hentries := @entries_eq_nil_iff R (scopeTables E.schema (cteNames E.schema.case next) prev)
    unfold checkJoinOnlyStar expandStar
    simp only [hcount, hqualifier, hselect, expandBareStar, scopeTables_body, hsources, Bool.false_eq_true,
      if_false, check_then_ok_iff, refuseIf_ok_iff, ne_eq, hentries, not_not]
    rw [and_comm]
    exact and_congr_left' (Bool.not_eq_true _).to_iff

/-- **The policy allows a node** of the composed statement. -/
def NodeAllowed (E : GuardEnv) (next : Expr) (denied : List String) (R : JoinOnlyRestrictions)
    (o : ExprOcc) : Prop :=
  DenialAllows E next denied o ∧ JoinOnlyAllows E next R o

/-- A node that is no column, star or join is allowed. -/
theorem nodeAllowed_of_other {o : ExprOcc} (hcolumn : o.node.cls ≠ .column) (hstar : o.node.cls ≠ .star)
    (hjoin : o.node.cls.isJoin = false) : NodeAllowed E next denied R o := by
  refine ⟨⟨fun h => absurd h hcolumn, fun h => absurd h hstar⟩,
    ⟨fun h => absurd h hcolumn, fun h => ?_, fun h => absurd h hstar⟩⟩
  rw [hjoin] at h
  cases h

theorem nodeAllowed_star_iff {o : ExprOcc} (hcls : o.node.cls = .star) :
    NodeAllowed E next denied R o ↔ (denied ≠ [] → checkDeniedStar E next denied o = .ok ()) ∧
      (R.byTable ≠ [] → checkJoinOnlyStar E.repr E.schema next R o = .ok ()) := by
  constructor
  · exact fun h => ⟨h.1.star hcls, h.2.star hcls⟩
  · refine fun h => ⟨⟨fun hc => ?_, fun _ => h.1⟩, ⟨fun hc => ?_, fun hj => ?_, fun _ => h.2⟩⟩
    · rw [hcls] at hc
      cases hc
    · rw [hcls] at hc
      cases hc
    · rw [hcls] at hj
      cases hj

/-- A projected column is allowed. -/
theorem nodeAllowed_projected_iff (h : (E.composer quoted).composeRefinement cap prev outer = .ok next)
    {source : Expr} (hsource : source ∈ sources prev) (hcls : source.cls = .table) {c : String}
    {before : List (Arg × Expr)} :
    NodeAllowed E next denied R (projectedOcc (E.composer quoted) source.aliasOrName c
      (itemFrames (E.composer quoted) cap prev outer next before)) ↔
        (c ≠ "" → c ≠ "*" → E.schema.case.upper c ∉ denied ∧ (E.schema.case.lower c ∈ R.names →
          tablesBehind E prev next R source.aliasOrName c = [])) := by
  have hcolumn := @checkJoinOnlyColumn_projected E quoted cap prev outer next R h source hsource hcls c before
  generalize hocc : projectedOcc (E.composer quoted) source.aliasOrName c
    (itemFrames (E.composer quoted) cap prev outer next before) = o at hcolumn ⊢
  have hclass : o.node.cls = .column := by rw [← hocc]; rfl
  have hname : o.node.name = c := by rw [← hocc]; rfl
  constructor
  · intro hallowed hempty hstar
    refine ⟨?_, fun hnamed => ?_⟩
    · have hdenied := hallowed.1.column hclass
      rw [hname] at hdenied
      exact hdenied hempty hstar
    · have hne : R.byTable ≠ [] := by
        intro hnil
        rw [JoinOnlyRestrictions.names, hnil] at hnamed
        cases hnamed
      exact hcolumn.mp (hallowed.2.column hclass hne) hempty hstar hnamed
  · refine fun hcond => ⟨⟨fun _ => ?_, fun hc => ?_⟩, ⟨fun _ _ => ?_, fun hj => ?_, fun hc => ?_⟩⟩
    · rw [hname]
      exact fun hempty hstar => (hcond hempty hstar).1
    · rw [hclass] at hc
      cases hc
    · exact hcolumn.mpr fun hempty hstar hnamed => (hcond hempty hstar).2 hnamed
    · rw [hclass] at hj
      cases hj
    · rw [hclass] at hc
      cases hc

/-- The nodes of a projected column. -/
theorem inTree_projectedColumn {C : ComposerEnv} {label c : String} {o : ExprOcc}
    (h : InTree (C.projectedColumn label c) o) : o = projectedOcc C label c [] ∨
      (o.node.cls ≠ .column ∧ o.node.cls ≠ .star ∧ o.node.cls.isJoin = false) := by
  have hwalk : ∀ o ∈ walk (C.projectedColumn label c), o = projectedOcc C label c [] ∨
      (o.node.cls ≠ .column ∧ o.node.cls ≠ .star ∧ o.node.cls.isJoin = false) := by
    show ∀ o ∈ [_, _, _, _, _], _
    simp only [List.forall_mem_cons]
    exact ⟨Or.inr ⟨nofun, nofun, rfl⟩, Or.inl rfl, Or.inr ⟨nofun, nofun, rfl⟩, Or.inr ⟨nofun, nofun, rfl⟩,
      Or.inr ⟨nofun, nofun, rfl⟩, fun o ho => absurd ho List.not_mem_nil⟩
  exact hwalk o (mem_walk_iff.mpr h)

/-- The nodes of a `label.*`. -/
theorem inTree_qualifiedStar {C : ComposerEnv} {label : String} {o : ExprOcc}
    (h : InTree (C.qualifiedStar label) o) : o = starOcc C label [] ∨ (o.node.cls = .column ∧ o.node.name = "*") ∨
      (o.node.cls ≠ .column ∧ o.node.cls ≠ .star ∧ o.node.cls.isJoin = false) := by
  have hwalk : ∀ o ∈ walk (C.qualifiedStar label), o = starOcc C label [] ∨
      (o.node.cls = .column ∧ o.node.name = "*") ∨
      (o.node.cls ≠ .column ∧ o.node.cls ≠ .star ∧ o.node.cls.isJoin = false) := by
    show ∀ o ∈ [_, _, _], _
    simp only [List.forall_mem_cons]
    exact ⟨Or.inr (Or.inl ⟨rfl, rfl⟩), Or.inl rfl, Or.inr (Or.inr ⟨nofun, nofun, rfl⟩),
      fun o ho => absurd ho List.not_mem_nil⟩
  exact hwalk o (mem_walk_iff.mpr h)

/-- A column called `*` is allowed. -/
theorem nodeAllowed_of_name_star {o : ExprOcc} (hcls : o.node.cls = .column) (hname : o.node.name = "*") :
    NodeAllowed E next denied R o := by
  refine ⟨⟨fun _ _ hne => absurd hname hne, fun hc => ?_⟩, ⟨fun _ _ => ?_, fun hj => ?_, fun hc => ?_⟩⟩
  · rw [hcls] at hc
    cases hc
  · unfold checkJoinOnlyColumn
    simp only [hname, true_or, or_true, if_true]
  · rw [hcls] at hj
    cases hj
  · rw [hcls] at hc
    cases hc

/-- The star of a source without a label is a bare one to the guard, as is one the composer wrote bare. -/
theorem bareStar_item_iff (h : (E.composer quoted).composeRefinement cap prev outer = .ok next)
    {before : List (Arg × Expr)} :
    NodeAllowed E next denied R ⟨.ofCls .star, itemFrames (E.composer quoted) cap prev outer next before⟩ ↔
      BareStarAllowed E prev next denied R := by
  have hqualifier : starQualifier ⟨.ofCls .star,
      itemFrames (E.composer quoted) cap prev outer next before⟩ = none := by
    have hbody := cls_cappedPredicate h
    unfold starQualifier itemFrames
    dsimp only [Occ.parent?]
    rw [if_neg]
    rintro ⟨hcolumn, -⟩
    rw [hbody] at hcolumn
    cases hcolumn
  have hcount : isCountStar ⟨.ofCls .star,
      itemFrames (E.composer quoted) cap prev outer next before⟩ = false := by
    have hbody := cls_cappedPredicate h
    unfold isCountStar itemFrames
    dsimp only [Occ.parent?, Option.any_some]
    rw [hbody]
    rfl
  rw [nodeAllowed_star_iff rfl, bareStar_allowed_iff hqualifier hcount (enclosingSelects_item h)]

theorem unlabelledStar_item_iff (h : (E.composer quoted).composeRefinement cap prev outer = .ok next)
    {before : List (Arg × Expr)} :
    NodeAllowed E next denied R (starOcc (E.composer quoted) ""
      (itemFrames (E.composer quoted) cap prev outer next before)) ↔
      BareStarAllowed E prev next denied R := by
  have hscopes : (enclosingSelects (starOcc (E.composer quoted) ""
      (itemFrames (E.composer quoted) cap prev outer next before))).map (·.node) =
        (E.composer quoted).cappedPredicate cap prev :: outerScopes next := by
    rw [starOcc, enclosingSelects_cons rfl, enclosingSelects_item h]
  rw [nodeAllowed_star_iff rfl, bareStar_allowed_iff rfl rfl hscopes]

/-- A star has nothing below it. -/
theorem not_mem_children_star {o c : ExprOcc} (ho : InTree (RoseTree.ofCls .star : Expr) o) :
    c ∉ o.children := by
  have hwalk : ∀ o ∈ walk (RoseTree.ofCls .star : Expr), o.node.children = [] := by
    show ∀ o ∈ [_], _
    simp only [List.forall_mem_cons]
    exact ⟨rfl, fun o ho => absurd ho List.not_mem_nil⟩
  have hleaf := hwalk o (mem_walk_iff.mpr ho)
  intro hc
  obtain ⟨k, n, pre, post, hchildren, -⟩ := Occ.mem_children.mp hc
  rw [hleaf] at hchildren
  exact absurd hchildren.symm (by simp)

/-- **The items of a source are allowed** exactly when the source may be projected. -/
theorem sourceAllowed_iff (h : (E.composer quoted).composeRefinement cap prev outer = .ok next)
    {source : Expr} (hsource : source ∈ sources prev) :
    (∀ item ∈ (E.composer quoted).sourceProjection (cteNames E.schema.case (cleared prev)) source,
      ∀ o', InTree item o' → ∀ before, InTree next ⟨item, itemFrames (E.composer quoted) cap prev outer
        next before⟩ → NodeAllowed E next denied R
          ⟨o'.node, o'.frames ++ itemFrames (E.composer quoted) cap prev outer next before⟩) ↔
      SourceAllowed E prev next denied R source := by
  have hplace : ∀ item ∈ (E.composer quoted).sourceProjection (cteNames E.schema.case (cleared prev)) source,
      ∃ before, InTree next ⟨item, itemFrames (E.composer quoted) cap prev outer next before⟩ := by
    intro item hitem
    have hmem : item ∈ (E.composer quoted).qualifiedProjection (cleared prev) := by
      rw [qualifiedProjection, sources_cleared, orStar_of_ne_nil]
      · exact List.mem_flatMap.mpr ⟨source, hsource, hitem⟩
      · exact List.ne_nil_of_mem (List.mem_flatMap.mpr ⟨source, hsource, hitem⟩)
    exact exists_generated h hmem InTree.root
  unfold SourceAllowed
  unfold sourceProjection at hplace ⊢
  by_cases hcls : source.cls = .table
  · simp only [if_pos hcls] at hplace ⊢
    have hschema : (E.composer quoted).schema = E.schema := rfl
    rw [hschema] at hplace ⊢
    cases hresolve : resolveTableName E.schema (cteNames E.schema.case (cleared prev)) source with
    | some t =>
      simp only [hresolve, List.forall_mem_map] at hplace ⊢
      refine forall₂_congr fun c hc => ?_
      obtain ⟨before, hbefore⟩ := hplace c hc
      constructor
      · intro hall
        exact (nodeAllowed_projected_iff h hsource hcls).mp (hall (projectedOcc _ _ c [])
          (InTree.root.child (Occ.mem_children.mpr ⟨_, _, [], _, rfl, rfl⟩)) before hbefore)
      · intro hcond o' ho' before' _
        rcases inTree_projectedColumn ho' with rfl | ⟨hcolumn, hstar, hjoin⟩
        · exact (nodeAllowed_projected_iff h hsource hcls).mpr hcond
        · exact nodeAllowed_of_other hcolumn hstar hjoin
    | none =>
      simp only [hresolve, List.forall_mem_singleton] at hplace ⊢
      obtain ⟨before, hbefore⟩ := hplace
      have hstar : ∀ before', NodeAllowed E next denied R (starOcc (E.composer quoted) source.aliasOrName
          (itemFrames (E.composer quoted) cap prev outer next before')) ↔
          if source.aliasOrName = "" then BareStarAllowed E prev next denied R
          else LabelStarAllowed E prev next denied R source.aliasOrName := by
        intro before'
        by_cases hlabel : source.aliasOrName = ""
        · rw [if_pos hlabel, hlabel]
          exact unlabelledStar_item_iff h
        · rw [if_neg hlabel, nodeAllowed_star_iff rfl]
          exact labelStar_allowed_iff h hsource hcls hlabel
      constructor
      · intro hall
        exact (hstar before).mp (hall (starOcc _ _ [])
          (InTree.root.child (Occ.mem_children.mpr ⟨_, _, [], _, rfl, rfl⟩)) before hbefore)
      · intro hcond o' ho' before' _
        rcases inTree_qualifiedStar ho' with rfl | ⟨hcolumn, hname⟩ | ⟨hcolumn, hno, hjoin⟩
        · exact (hstar before').mpr hcond
        · exact nodeAllowed_of_name_star hcolumn hname
        · exact nodeAllowed_of_other hcolumn hno hjoin
  · simp only [if_neg hcls, List.forall_mem_singleton] at hplace ⊢
    obtain ⟨before, hbefore⟩ := hplace
    constructor
    · exact fun hall => (bareStar_item_iff h).mp (hall (Occ.root _) InTree.root before hbefore)
    · intro hcond o' ho' before' _
      cases ho' with
      | root => exact (bareStar_item_iff h).mpr hcond
      | @child o c ho hc => exact absurd hc (not_mem_children_star ho)

/-- Without sources the bare star stands for nothing. -/
theorem bareStarAllowed_of_no_sources (hsources : sources prev = []) :
    BareStarAllowed E prev next denied R := by
  have hdirect : directFromSources prev = [] := hsources
  refine ⟨fun _ => ⟨[], by rw [hsources]; rfl, fun t ht => absurd ht List.not_mem_nil⟩, fun _ => ⟨?_, ?_⟩⟩
  · show ((directFromSources prev).any _) = false
    rw [hdirect]
    rfl
  · intro t ht
    rw [scopeTables, hdirect] at ht
    exact absurd ht List.not_mem_nil

/-- **The generated nodes are allowed** exactly when every source may be projected. -/
theorem generated_allowed_iff (h : (E.composer quoted).composeRefinement cap prev outer = .ok next) :
    (∀ o, InTree next o → Generated (E.composer quoted) cap prev outer next o →
      NodeAllowed E next denied R o) ↔ ∀ s ∈ sources prev, SourceAllowed E prev next denied R s := by
  constructor
  · intro hall source hsource
    refine (sourceAllowed_iff h hsource).mp fun item hitem o' ho' before hbefore => ?_
    refine hall _ ?_ ⟨_, _, rfl⟩
    clear hitem
    induction ho' with
    | root => exact hbefore
    | @child o c _ hc ih =>
      obtain ⟨k, n, pre, post, hchildren, rfl⟩ := Occ.mem_children.mp hc
      exact ih.child (Occ.mem_children.mpr ⟨k, n, pre, post, hchildren, rfl⟩)
  · intro hsources o ho hg
    obtain ⟨item, hitem, o', ho', before, hbefore, rfl⟩ := generated_cases ho hg
    rw [qualifiedProjection, sources_cleared] at hitem
    by_cases hnone : sources prev = []
    · -- the projection of nothing is a bare star
      rw [hnone] at hitem
      have hstar : item = .ofCls .star := List.mem_singleton.mp hitem
      subst hstar
      cases ho' with
      | root => exact (bareStar_item_iff h).mpr (bareStarAllowed_of_no_sources hnone)
      | @child o c ho hc => exact absurd hc (not_mem_children_star ho)
    · have hne : (sources prev).flatMap ((E.composer quoted).sourceProjection
          (cteNames (E.composer quoted).schema.case (cleared prev))) ≠ [] := by
        obtain ⟨s, hs⟩ := List.exists_mem_of_ne_nil _ hnone
        exact fun hempty => sourceProjection_ne_nil _ s (List.flatMap_eq_nil_iff.mp hempty s hs)
      rw [orStar_of_ne_nil hne] at hitem
      obtain ⟨source, hsource, hmem⟩ := List.mem_flatMap.mp hitem
      exact (sourceAllowed_iff h hsource).mpr (hsources source hsource) item hmem o' ho' before hbefore

end Guard

/-! ## Follow-ups -/

/-- **A follow-up that offends with nothing of its own**: the previous statement was allowed under the
entries, the composed one is accepted without a policy, and the policy allows every node of it that the
follow-up or the previous statement wrote. -/
structure FollowUp (E : GuardEnv) (dialect : Dialect) (quoted : String → Bool) (entries : List String)
    (cap : ℕ) (prev outer next : Expr) : Prop where
  allowed : validateSqlWith E dialect entries [some prev] = .ok ()
  composed : (E.composer quoted).composeRefinement cap prev outer = .ok next
  unrestricted : validateSqlWith E dialect [] [some next] = .ok ()
  elsewhere : ∀ policy R, parseColumnPolicy E.schema.case E.repr entries = .ok policy →
    resolveJoinOnly E policy.joinOnly (executingSource E next) = .ok R →
    ∀ o, InTree next o → ¬ Generated (E.composer quoted) cap prev outer next o →
      NodeAllowed E next policy.denied R o

variable {E : GuardEnv} {dialect : Dialect} {quoted : String → Bool} {entries : List String} {cap : ℕ}
  {prev outer next : Expr}

/-- `SELECT c.ID FROM sales.Customer AS c`. -/
def customerIds : Expr :=
  Expr.selectFrom [] [Expr.columnRef "c" "ID"] (Expr.tableRef "sales" "Customer" "c")

/-- `SELECT c_ID FROM _prev`. -/
def idsOfPrev : Expr := Expr.selectFrom [] [Expr.columnRef "" "c_ID"] (Expr.tableRef "" "_prev" "")

/-- The refinement of the one by the other. -/
def refinedIds : Expr :=
  idsOfPrev.setSlot .with_ [prevWith ((salesEnv.composer fun _ => false).cappedPredicate 1000 customerIds)]

theorem refinedIds_composed :
    (salesEnv.composer fun _ => false).composeRefinement 1000 customerIds idsOfPrev = .ok refinedIds := rfl

/-- Under a denied name that no table has the same refinement goes through. -/
theorem refinedIds_followUp : FollowUp salesEnv .tsql (fun _ => false) ["Salary"] 1000 customerIds idsOfPrev
    refinedIds where
  allowed := by rfl
  composed := refinedIds_composed
  unrestricted := by rfl
  elsewhere := by
    intro policy R hparse hR o ho _
    have hok : validateSqlWith salesEnv .tsql ["Salary"] [some refinedIds] = .ok () := by rfl
    have hnodes := (validateSqlWith_ok_iff (by rfl) hparse hR).mp hok
    exact ⟨hnodes.1 o ho, hnodes.2 o ho⟩

end LocalSqlAgent
