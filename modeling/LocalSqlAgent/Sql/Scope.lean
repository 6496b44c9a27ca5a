import LocalSqlAgent.Sql.Tree

/-! # SQL's own scoping

What a name in a statement tree means to the database, independent of how the guard looks it up.

* **CTE scope** (`visibleCtes`): a `WITH` is visible to the statement it is attached to, each of its
  CTEs to the later ones, and to its own body only as a recursive member.
* **Select scope** (`sqlScopes`): a column is looked up in the selects around it, innermost first,
  and never from inside a derived table or a CTE body outwards.
* **Sources** (`SourceOf`): what a select reads, parenthesised and nested joins included, each under
  the label it is addressed by. -/

namespace LocalSqlAgent

/-- The CTEs of a statement's own `WITH`. -/
def ownCtes (e : Expr) : List Expr := ((e.arg .with_).map (·.slot .expressions)).getD []

/-! ## CTE scope -/

/-- Whether a node is still part of a recursive member once its frame is crossed: the right side of
a `UNION ALL` is one, and stays one up the left spine of further ones to the CTE. -/
def recursiveMember (f : Frame NodeLabel Arg) (inside : Bool) : Bool :=
  match f.parent.cls, f.key with
  | .union false, .expression => true
  | .union false, .this => inside
  | .cte, .this => inside
  | _, _ => false

/-- The CTEs a frame brings into scope for the node `n` below it. Under a `WITH`: the earlier ones,
all of them under `RECURSIVE`, and the CTE itself for its recursive member where the dialect needs no
keyword (`implicit`). Elsewhere: the `WITH` of the statement. -/
def ctesAt (implicit : Bool) (n : Expr) (inside : Bool) (f : Frame NodeLabel Arg) : List Expr :=
  match f.parent.cls with
  | .withClause recursive =>
    (if f.key = .expressions then
      ((f.before.filter (·.1 = .expressions)).map (·.2)) ++
        (if recursive then f.parent.slot .expressions else []) ++
        (if implicit && inside then [n] else [])
    else []).filter (·.cls.isCte)
  | _ => if f.key = .with_ then [] else (ownCtes f.parent).filter (·.cls.isCte)

/-- The CTEs in scope below a list of frames. -/
def visibleBelow (implicit : Bool) : Expr → Bool → List (Frame NodeLabel Arg) → List Expr
  | _, _, [] => []
  | n, inside, f :: above =>
    ctesAt implicit n inside f ++ visibleBelow implicit f.parent (recursiveMember f inside) above

/-- **The CTEs whose scope an occurrence lies in.** -/
def visibleCtes (implicit : Bool) (o : ExprOcc) : List Expr :=
  visibleBelow implicit o.node false o.frames

theorem InTree.of_mem_ctesAt {tree n e : Expr} {implicit inside : Bool} {f : Frame NodeLabel Arg}
    {above : List (Frame NodeLabel Arg)} (h : InTree tree ⟨n, f :: above⟩)
    (he : e ∈ ctesAt implicit n inside f) :
    ∃ o, InTree tree o ∧ o.node = e ∧ e.cls = .cte := by
  have hparent : InTree tree ⟨f.parent, above⟩ := h.above
  have hchild : ∀ {k : Arg}, (k, e) ∈ f.parent.children → ∃ o, InTree tree o ∧ o.node = e := by
    intro k hk
    obtain ⟨pre, hpre⟩ := hparent.exists_child hk
    exact ⟨_, hpre, rfl⟩
  obtain ⟨post, hsplit⟩ := h.frame
  unfold ctesAt at he
  split at he
  · obtain ⟨hmem, hcls⟩ := List.mem_filter.mp he
    rw [Cls.isCte_iff] at hcls
    split at hmem
    · simp only [List.mem_append, List.mem_map, List.mem_filter] at hmem
      rcases hmem with (⟨⟨k, e'⟩, ⟨hbefore, -⟩, rfl⟩ | hrec) | hself
      · obtain ⟨o, ho, hnode⟩ := hchild (k := k) (by rw [hsplit]; simp [hbefore])
        exact ⟨o, ho, hnode, hcls⟩
      · split at hrec
        · obtain ⟨o, ho, hnode⟩ := hchild (RoseTree.mem_slot.mp hrec)
          exact ⟨o, ho, hnode, hcls⟩
        · cases hrec
      · split at hself
        · rw [List.mem_singleton] at hself
          exact ⟨_, h, hself.symm, hcls⟩
        · cases hself
    · cases hmem
  · split at he
    · cases he
    · obtain ⟨hmem, hcls⟩ := List.mem_filter.mp he
      rw [Cls.isCte_iff] at hcls
      cases hw : f.parent.arg .with_ with
      | none => simp [ownCtes, hw] at hmem
      | some w =>
        simp only [ownCtes, hw, Option.map_some, Option.getD_some] at hmem
        obtain ⟨pre, hpre⟩ := hparent.exists_child (RoseTree.mem_children_of_arg hw)
        obtain ⟨pre', ho⟩ := hpre.exists_child (RoseTree.mem_slot.mp hmem)
        exact ⟨_, ho, rfl, hcls⟩

/-- **A CTE in scope is a CTE of the statement.** -/
theorem InTree.of_mem_visibleCtes {tree e : Expr} {implicit : Bool} {o : ExprOcc}
    (h : InTree tree o) (he : e ∈ visibleCtes implicit o) :
    ∃ o', InTree tree o' ∧ o'.node = e ∧ e.cls = .cte := by
  obtain ⟨n, fs⟩ := o
  rw [visibleCtes] at he
  generalize false = inside at he
  induction fs generalizing n inside with
  | nil => cases he
  | cons f above ih =>
    rw [visibleBelow, List.mem_append] at he
    rcases he with hhere | habove
    · exact h.of_mem_ctesAt hhere
    · exact ih f.parent h.above _ habove

/-! ## Select scope -/

mutual

/-- Whether a node is a query: a select, a set operation, or one in parentheses. -/
def isQuery : Expr → Bool
  | .node l args =>
    match l.cls with
    | .select | .union _ | .intersect | .except => true
    | .subquery | .paren => isQueryAt args
    | _ => false

/-- Whether the first `this` child is a query; a derived table with an alias of its own is a source
in a parenthesised join instead. -/
def isQueryAt : List (Arg × Expr) → Bool
  | [] => false
  | (k, c) :: rest =>
    if k = .this then isQuery c && (c.cls ≠ .subquery || c.aliasName = "") else isQueryAt rest

end

/-- Whether the scopes above a frame are out of reach from the node `n` below it: a CTE body, a
derived table, and the trailing clauses of a set operation, which name its output columns. -/
def cutsScope (n : Expr) (f : Frame NodeLabel Arg) : Bool :=
  match f.parent.cls with
  | .cte => f.key = .this
  | .fromClause | .join .. => f.key = .this && n.cls = .subquery && isQuery n
  | .subquery => f.key = .this && n.cls = .subquery && n.aliasName ≠ "" && isQuery n
  | .union _ | .intersect | .except => f.key ≠ .this && f.key ≠ .expression
  | _ => false

/-- The selects in scope below a list of frames. -/
def scopesBelow : Expr → List (Frame NodeLabel Arg) → List ExprOcc
  | _, [] => []
  | n, f :: above =>
    if cutsScope n f then []
    else
      let outer := scopesBelow f.parent above
      if f.parent.cls.isSelect then ⟨f.parent, above⟩ :: outer else outer

/-- **The selects an occurrence can name columns of**, innermost first. -/
def sqlScopes (o : ExprOcc) : List ExprOcc := scopesBelow o.node o.frames

/-- The database looks no further than the selects around a node. -/
theorem sqlScopes_initial (o : ExprOcc) : sqlScopes o <+: enclosingSelects o := by
  obtain ⟨n, fs⟩ := o
  rw [sqlScopes]
  induction fs generalizing n with
  | nil => exact List.nil_prefix
  | cons f above ih =>
    rw [scopesBelow, enclosingSelects, Occ.ancestors_cons]
    split
    · exact List.nil_prefix
    · by_cases hsel : f.parent.cls.isSelect = true
      · simpa [List.filter_cons, hsel, enclosingSelects] using ih f.parent
      · simpa [List.filter_cons, hsel, enclosingSelects] using ih f.parent

/-! ## Sources -/

/-- The occurrences of the children under one key. -/
def childrenAt (k : Arg) (o : ExprOcc) : List ExprOcc := o.children.filter fun c => c.key? = some k

theorem InTree.of_mem_childrenAt {tree : Expr} {o c : ExprOcc} {k : Arg} (h : InTree tree o)
    (hc : c ∈ childrenAt k o) : InTree tree c :=
  h.child (List.mem_filter.mp hc).1

/-- A keyed child of a node has its occurrence below the node's. -/
theorem exists_mem_childrenAt {o : ExprOcc} {k : Arg} {e : Expr} (h : (k, e) ∈ o.node.children) :
    ∃ c ∈ childrenAt k o, c.node = e := by
  obtain ⟨pre, post, hsplit⟩ := List.append_of_mem h
  refine ⟨⟨e, ⟨o.node, k, pre⟩ :: o.frames⟩, List.mem_filter.mpr ⟨?_, ?_⟩, rfl⟩
  · exact Occ.mem_children.mpr ⟨k, e, pre, post, hsplit, rfl⟩
  · simp [Occ.key?]

/-- The alias a `PIVOT` gives its result, `""` for no pivot. -/
def pivotAlias (e : Expr) : String := (((e.slot .pivots).getLast?).map (·.aliasName)).getD ""

/-- The label a source is addressed by: its pivot's alias, its own alias, or a table's name. -/
def sqlLabel (e : Expr) : String :=
  if pivotAlias e ≠ "" then pivotAlias e
  else if e.aliasName ≠ "" then e.aliasName
  else if e.cls = .table then e.name else ""

/-- **The sources of a select**: `SourceOf s o label` says that `s` reads the table or query at `o`,
addressed as `label`. A join in parentheses contributes the tables inside, under its own alias when
it has one. -/
inductive SourceOf (s : ExprOcc) : ExprOcc → String → Prop
  | from_ {f o : ExprOcc} : f ∈ childrenAt .from_ s → o ∈ childrenAt .this f →
      SourceOf s o (sqlLabel o.node)
  | join {j o : ExprOcc} : j ∈ childrenAt .joins s → o ∈ childrenAt .this j →
      SourceOf s o (sqlLabel o.node)
  | lateral {o : ExprOcc} : o ∈ childrenAt .laterals s → SourceOf s o (sqlLabel o.node)
  | nested {p j o : ExprOcc} {label : String} : SourceOf s p label → j ∈ childrenAt .joins p →
      o ∈ childrenAt .this j → SourceOf s o (sqlLabel o.node)
  | inner {p o : ExprOcc} {label : String} : SourceOf s p label → p.node.cls = .subquery →
      isQuery p.node = false → o ∈ childrenAt .this p →
      SourceOf s o (if label = "" then sqlLabel o.node else label)

/-- Every source of a select of a tree is in the tree. -/
theorem SourceOf.inTree {tree : Expr} {s o : ExprOcc} {label : String} (h : SourceOf s o label)
    (hs : InTree tree s) : InTree tree o := by
  induction h with
  | from_ hf ho => exact (hs.of_mem_childrenAt hf).of_mem_childrenAt ho
  | join hj ho => exact (hs.of_mem_childrenAt hj).of_mem_childrenAt ho
  | lateral ho => exact hs.of_mem_childrenAt ho
  | nested _ hj ho ih => exact (ih.of_mem_childrenAt hj).of_mem_childrenAt ho
  | inner _ _ _ ho ih => exact ih.of_mem_childrenAt ho

end LocalSqlAgent
