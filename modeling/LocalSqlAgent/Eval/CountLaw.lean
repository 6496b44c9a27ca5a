import LocalSqlAgent.Eval.CountSelect

/-! # The cap check counts the right rows

A set operation is counted without its `WITH` and without an `ORDER BY` that no row limit needs, wherever the
parser hangs it; its columns keep the names of the first branch. With the selects this says exactly when a count
statement is right.

* **`CountedSetOperation`**: what is written of a set operation.
* **`CountsWhen`**: when the count of a statement is right.
* **`countQuery_right_iff`**: a statement that is returned counts right under that condition and no other. -/

namespace LocalSqlAgent

variable {C : CaseMaps} {G : Generator} {tree q e : Expr} {ks : List Arg} {k : Arg}
  {Db Row Out Key : Type} {E : QueryEngine Db Row Out Key} {db : Db}

/-! ## Set operations -/

theorem filter_editRightmostAt {f : Expr → Expr} {args : List (Arg × Expr)} {P : Arg × Expr → Bool}
    (h : ∀ e : Arg × Expr, e.1 = .expression → P e = false) :
    (editRightmostAt f args).filter P = args.filter P := by
  induction args with
  | nil => rfl
  | cons head rest ih =>
    obtain ⟨k, c⟩ := head
    rw [editRightmostAt]
    split
    · rename_i hk
      rw [List.filter_cons_of_neg (by simp [h (k, _) hk]), List.filter_cons_of_neg (by simp [h (k, _) hk])]
    · rw [List.filter_cons, List.filter_cons, ih]

/-- The edit changes the last branch and nothing else. -/
theorem slot_editRightmostAt {f : Expr → Expr} {l : NodeLabel} {args : List (Arg × Expr)} {last : Expr}
    (h : (RoseTree.node l args).slot .expression = [last]) :
    (RoseTree.node l (editRightmostAt f args)).slot .expression = [editRightmost f last] := by
  induction args with
  | nil => cases h
  | cons head rest ih =>
    obtain ⟨k, c⟩ := head
    rw [editRightmostAt]
    by_cases hk : k = .expression
    · simp only [RoseTree.slot, RoseTree.children_node, hk, decide_true, List.filter_cons_of_pos, List.map_cons,
        List.cons.injEq] at h
      simp only [RoseTree.slot, RoseTree.children_node, hk, if_true, decide_true, List.filter_cons_of_pos,
        List.map_cons, h.1, h.2]
    · have hrest : (RoseTree.node l rest).slot .expression = [last] := by
        simpa [RoseTree.slot, hk] using h
      have := ih hrest
      rw [if_neg hk]
      simpa [RoseTree.slot, hk] using this

theorem rightmostAt_of_slot {l : NodeLabel} {args : List (Arg × Expr)} {last : Expr}
    (h : (RoseTree.node l args).slot .expression = [last]) : rightmostAt args = some (rightmost last) := by
  induction args with
  | nil => cases h
  | cons head rest ih =>
    obtain ⟨k, c⟩ := head
    rw [rightmostAt]
    by_cases hk : k = .expression
    · simp only [RoseTree.slot, RoseTree.children_node, hk, decide_true, List.filter_cons_of_pos, List.map_cons,
        List.cons.injEq] at h
      rw [if_pos hk, h.1]
    · rw [if_neg hk]
      exact ih (by simpa [RoseTree.slot, hk] using h)

/-- A query that is no set operation is its own last branch. -/
theorem rightmost_of_branch (h : q.cls.isSetOperation = false) : rightmost q = q := by
  obtain ⟨l, args⟩ := q
  rw [RoseTree.cls_node] at h
  rw [rightmost, h]
  rfl

theorem editRightmost_of_branch {f : Expr → Expr} (h : q.cls.isSetOperation = false) : editRightmost f q = f q := by
  obtain ⟨l, args⟩ := q
  rw [RoseTree.cls_node] at h
  rw [editRightmost, h]
  rfl

/-- **What becomes of a set operation**: its `WITH` goes, and the `ORDER BY` of the statement where it has no
row limit, from the set operation or from its last branch. -/
structure CountedSetOperation (tree last q : Expr) : Prop where
  cls : q.cls = tree.cls
  with_ : q.slot .with_ = []
  source : sourceArgs q = sourceArgs tree
  limit : limitArgs q = limitArgs tree
  first : q.slot .this = tree.slot .this
  last : q.slot .expression = [if limitArgs last = [] then dropOrder last else last]
  order : q.slot .order = if limitArgs tree = [] then [] else tree.slot .order

/-- A query without an `ORDER BY` loses none. -/
theorem dropOrder_of_none (h : q.slot .order = []) : dropOrder q = q := by
  obtain ⟨l, args⟩ := q
  rw [dropOrder, RoseTree.dropArgs, RoseTree.children_node]
  congr 1
  refine List.filter_eq_self.mpr fun e he => ?_
  have hkey : e.1 ≠ .order := fun hkey => by
    have hmem : e.2 ∈ (RoseTree.node l args).slot .order := RoseTree.mem_slot.mpr (hkey ▸ he)
    rw [h] at hmem
    cases hmem
  simpa using hkey

/-- The set operation behind the first edit. -/
theorem editRightmost_setOperation {f : Expr → Expr} {last : Expr} (hcls : q.cls.isSetOperation = true)
    (hlast : q.slot .expression = [last]) :
    (editRightmost f q).cls = q.cls ∧ (editRightmost f q).slot .expression = [editRightmost f last] ∧
      ∀ P : Arg × Expr → Bool, (∀ e : Arg × Expr, e.1 = .expression → P e = false) →
        (editRightmost f q).children.filter P = q.children.filter P := by
  obtain ⟨l, args⟩ := q
  rw [RoseTree.cls_node] at hcls
  rw [editRightmost, hcls, if_pos rfl]
  exact ⟨rfl, slot_editRightmostAt hlast, fun _ => filter_editRightmostAt⟩

theorem slot_eq_of_filter {q' : Expr} (h : q'.children.filter (·.1 = k) = q.children.filter (·.1 = k)) :
    q'.slot k = q.slot k := by
  rw [RoseTree.slot, RoseTree.slot, h]

/-- The set operation behind the second edit: the order of its own node. -/
theorem countedSetOperation_of {t last : Expr} (hcls : t.cls = tree.cls)
    (hlast : t.slot .expression = [if limitArgs last = [] then dropOrder last else last])
    (hargs : ∀ P : Arg × Expr → Bool, (∀ e : Arg × Expr, e.1 = .expression → P e = false) →
      t.children.filter P = (tree.dropArgs [.with_]).children.filter P) :
    CountedSetOperation tree last
      (if t.slot .order ≠ [] ∧ hasRowLimit t = false then dropOrder t else t) := by
  have hslot : ∀ k, k ≠ .expression → t.slot k = (tree.dropArgs [.with_]).slot k := fun k hk =>
    slot_eq_of_filter (hargs _ fun e he => by simpa [he] using hk.symm)
  have hsource : sourceArgs t = sourceArgs tree :=
    (hargs _ fun e he => by simp [he, fixedKeys]).trans (sourceArgs_dropArgs (by decide))
  have hlimit : limitArgs t = limitArgs tree :=
    (hargs _ fun e he => by simp [he, limitKeys]).trans (limitArgs_dropArgs (by decide))
  have hwith : t.slot .with_ = [] := (hslot _ (by decide)).trans (slot_dropArgs_of_mem (by decide))
  have hfirst : t.slot .this = tree.slot .this :=
    (hslot _ (by decide)).trans (slot_dropArgs_of_not_mem (by decide))
  have horder : t.slot .order = tree.slot .order :=
    (hslot _ (by decide)).trans (slot_dropArgs_of_not_mem (by decide))
  have hunlimited : hasRowLimit t = false ↔ limitArgs tree = [] := by rw [hasRowLimit_eq_false_iff, hlimit]
  split
  · rename_i hdrop
    have hnone := hunlimited.mp hdrop.2
    exact
      { cls := hcls
        with_ := (slot_dropArgs_of_not_mem (by decide)).trans hwith
        source := (sourceArgs_dropArgs (by decide)).trans hsource
        limit := (limitArgs_dropArgs (by decide)).trans hlimit
        first := (slot_dropArgs_of_not_mem (by decide)).trans hfirst
        last := (slot_dropArgs_of_not_mem (by decide)).trans hlast
        order := (slot_dropArgs_of_mem (by decide)).trans (if_pos hnone).symm }
  · rename_i hkeep
    refine ⟨hcls, hwith, hsource, hlimit, hfirst, hlast, ?_⟩
    split
    · rename_i hnone
      by_contra hne
      exact hkeep ⟨hne, hunlimited.mpr hnone⟩
    · exact horder

/-- **The edits on a set operation**: the order of its last branch first, then that of its own node. -/
theorem countedQuery_of_setOperation {last : Expr} (hcls : tree.cls.isSetOperation = true)
    (hlast : tree.slot .expression = [last]) (hbranch : last.cls.isSetOperation = false) : ∃ t,
      (t = tree.dropArgs [.with_] ∨ t = editRightmost dropOrder (tree.dropArgs [.with_])) ∧
      t.cls = tree.cls ∧ t.slot .expression = [if limitArgs last = [] then dropOrder last else last] ∧
      (∀ P : Arg × Expr → Bool, (∀ e : Arg × Expr, e.1 = .expression → P e = false) →
        t.children.filter P = (tree.dropArgs [.with_]).children.filter P) ∧
      countedQuery C tree = if t.slot .order ≠ [] ∧ hasRowLimit t = false then dropOrder t else t := by
  have hcls₁ : (tree.dropArgs [.with_]).cls.isSetOperation = true := hcls
  have hlast₁ : (tree.dropArgs [.with_]).slot .expression = [last] := by
    rw [slot_dropArgs_of_not_mem (by decide), hlast]
  have hright : rightmost (tree.dropArgs [.with_]) = last := by
    generalize tree.dropArgs [.with_] = t at hcls₁ hlast₁
    obtain ⟨l, args⟩ := t
    rw [RoseTree.cls_node] at hcls₁
    rw [rightmost, hcls₁, if_pos rfl, rightmostAt_of_slot hlast₁, rightmost_of_branch hbranch]
    rfl
  -- a set operation is no select, whatever its order
  have hselect : ∀ t : Expr, t.cls.isSetOperation = true →
      (if t.slot .order ≠ [] ∧ hasRowLimit t = false then dropOrder t else t).cls ≠ .select := fun t ht heq => by
    have hsame : (if t.slot .order ≠ [] ∧ hasRowLimit t = false then dropOrder t else t).cls = t.cls := by
      split <;> rfl
    rw [← hsame, heq] at ht
    cases ht
  obtain ⟨hcls₂, hlast₂, hargs₂⟩ := editRightmost_setOperation (f := dropOrder) hcls₁ hlast₁
  unfold countedQuery
  simp only [hright, hcls₁, true_or, and_true]
  by_cases hdrop : last.slot .order ≠ [] ∧ hasRowLimit last = false
  · refine ⟨_, .inr rfl, hcls₂, ?_, hargs₂, ?_⟩
    · rw [hlast₂, editRightmost_of_branch hbranch, if_pos (hasRowLimit_eq_false_iff.mp hdrop.2)]
    · have hcls₃ : (editRightmost dropOrder (tree.dropArgs [.with_])).cls.isSetOperation = true := by
        rw [hcls₂, hcls₁]
      simp only [if_pos hdrop, hcls₃, true_and, if_neg (hselect _ hcls₃)]
  · refine ⟨_, .inl rfl, rfl, ?_, fun _ _ => rfl, ?_⟩
    · rw [hlast₁]
      split
      · rename_i hnone
        rw [dropOrder_of_none]
        by_contra hne
        exact hdrop ⟨hne, hasRowLimit_eq_false_iff.mpr hnone⟩
      · rfl
    · simp only [if_neg hdrop, hcls₁, true_and, if_neg (hselect _ hcls₁)]

/-- **What is written of a set operation.** -/
theorem countedSetOperation {last : Expr} (hcls : tree.cls.isSetOperation = true)
    (hlast : tree.slot .expression = [last]) (hbranch : last.cls.isSetOperation = false) :
    CountedSetOperation tree last (countedQuery C tree) := by
  obtain ⟨t, -, hcls₂, hlast₂, hargs, heq⟩ := countedQuery_of_setOperation (C := C) hcls hlast hbranch
  rw [heq]
  exact countedSetOperation_of hcls₂ hlast₂ hargs

/-- An edited argument is an old one, or the edited last branch. -/
theorem mem_editRightmostAt {f : Expr → Expr} {args : List (Arg × Expr)} {c : Arg × Expr}
    (h : c ∈ editRightmostAt f args) : c ∈ args ∨ ∃ last, (.expression, last) ∈ args ∧
      c = (.expression, editRightmost f last) := by
  induction args with
  | nil => exact absurd h List.not_mem_nil
  | cons head rest ih =>
    obtain ⟨k, e⟩ := head
    rw [editRightmostAt] at h
    split at h
    · rename_i hk
      subst hk
      rcases List.mem_cons.mp h with rfl | hrest
      · exact .inr ⟨e, List.mem_cons_self, rfl⟩
      · exact .inl (List.mem_cons_of_mem _ hrest)
    · rcases List.mem_cons.mp h with rfl | hrest
      · exact .inl List.mem_cons_self
      · rcases ih hrest with hold | ⟨last, hlast, heq⟩
        · exact .inl (List.mem_cons_of_mem _ hold)
        · exact .inr ⟨last, List.mem_cons_of_mem _ hlast, heq⟩

/-- **The derived table of a set operation holds no `WITH`.** -/
theorem noWith_countedSetOperation {last : Expr} (hcls : tree.cls.isSetOperation = true)
    (hlast : tree.slot .expression = [last]) (hbranch : last.cls.isSetOperation = false)
    (hwith : (tree.dropArgs [.with_]).countNodes isWith = 0) : (countedQuery C tree).countNodes isWith = 0 := by
  have hedited : (editRightmost dropOrder (tree.dropArgs [.with_])).countNodes isWith = 0 := by
    obtain ⟨hroot, hchildren⟩ := noWith_iff.mp hwith
    have hlast₁ : (tree.dropArgs [.with_]).slot .expression = [last] := by
      rw [slot_dropArgs_of_not_mem (by decide), hlast]
    have hcls₁ : (tree.dropArgs [.with_]).cls.isSetOperation = true := hcls
    generalize tree.dropArgs [.with_] = t at hroot hchildren hlast₁ hcls₁
    obtain ⟨l, args⟩ := t
    rw [RoseTree.cls_node] at hcls₁
    rw [editRightmost, hcls₁, if_pos rfl]
    refine noWith_iff.mpr ⟨hroot, fun c hc => ?_⟩
    rcases mem_editRightmostAt hc with hold | ⟨e, he, rfl⟩
    · exact hchildren c hold
    · have hmem : e ∈ (RoseTree.node l args).slot .expression := RoseTree.mem_slot.mpr he
      rw [hlast₁, List.mem_singleton] at hmem
      subst hmem
      rw [editRightmost_of_branch hbranch]
      exact noWith_dropArgs (hchildren (.expression, e) he)
  obtain ⟨t, ht, -, -, -, heq⟩ := countedQuery_of_setOperation (C := C) hcls hlast hbranch
  have hnone : t.countNodes isWith = 0 := by
    rcases ht with rfl | rfl
    · exact hwith
    · exact hedited
  rw [heq]
  split
  · exact noWith_dropArgs hnone
  · exact hnone

theorem mem_branches {b : Expr} (h : b ∈ branches q) : b = q ∨
    ∃ c, (c ∈ q.slot .this ∨ c ∈ q.slot .expression) ∧ b ∈ branches c := by
  obtain ⟨l, args⟩ := q
  rw [branches] at h
  rcases List.mem_cons.mp h with rfl | h
  · exact .inl rfl
  · refine .inr ?_
    split at h
    · clear * - h
      induction args with
      | nil => exact absurd h List.not_mem_nil
      | cons head rest ih =>
        obtain ⟨k, c⟩ := head
        have hrest : ∀ {k'} {e : Expr}, e ∈ (RoseTree.node l rest).slot k' →
            e ∈ (RoseTree.node l ((k, c) :: rest)).slot k' := fun he =>
          RoseTree.mem_slot.mpr (List.mem_cons_of_mem _ (RoseTree.mem_slot.mp he))
        rw [branchesAt] at h
        split at h
        · rename_i hk
          rcases List.mem_append.mp h with hhere | hthere
          · exact ⟨c, hk.imp (fun hk => RoseTree.mem_slot.mpr (by simp [hk])) fun hk =>
              RoseTree.mem_slot.mpr (by simp [hk]), hhere⟩
          · obtain ⟨e, he, hbranch⟩ := ih hthere
            exact ⟨e, he.imp hrest hrest, hbranch⟩
        · obtain ⟨e, he, hbranch⟩ := ih h
          exact ⟨e, he.imp hrest hrest, hbranch⟩
    · exact absurd h List.not_mem_nil

theorem branches_of_branch (h : q.cls.isSetOperation = false) : branches q = [q] := by
  obtain ⟨l, args⟩ := q
  rw [RoseTree.cls_node] at h
  rw [branches, h]
  rfl

theorem firstBranchAt_of_slot {l : NodeLabel} {args : List (Arg × Expr)} {first : Expr}
    (h : (RoseTree.node l args).slot .this = [first]) : firstBranchAt args = some (firstBranch first) := by
  induction args with
  | nil => cases h
  | cons head rest ih =>
    obtain ⟨k, c⟩ := head
    rw [firstBranchAt]
    by_cases hk : k = .this
    · simp only [RoseTree.slot, RoseTree.children_node, hk, decide_true, List.filter_cons_of_pos, List.map_cons,
        List.cons.injEq] at h
      rw [if_pos hk, h.1]
    · rw [if_neg hk]
      exact ih (by simpa [RoseTree.slot, hk] using h)

theorem firstBranch_of_slot {first : Expr} (hcls : q.cls.isSetOperation = true) (h : q.slot .this = [first]) :
    firstBranch q = firstBranch first := by
  obtain ⟨l, args⟩ := q
  rw [RoseTree.cls_node] at hcls
  rw [firstBranch, if_pos (.inl hcls), firstBranchAt_of_slot h]
  rfl

theorem derived_of_setOperation (hcls : q.cls.isSetOperation = true) : G.derived q = q :=
  if_neg fun heq => by rw [heq] at hcls; cases hcls

/-- **A set operation is legal as a derived table if and only if the columns of its first branch have names of
their own.** -/
theorem legal_setOperation_iff (h : TsqlQuery tree) (hcls : tree.cls.isSetOperation = true) :
    LegalDerivedTable C (G.derived (countedQuery C tree)) ↔
      NamedColumns C ((firstBranch tree).slot .expressions) := by
  obtain ⟨first, last, hfirst, hlast, hbranch, hordered, -⟩ := h.operands hcls
  have hcounted := countedSetOperation (C := C) hcls hlast hbranch
  have hqcls : (countedQuery C tree).cls.isSetOperation = true := by rw [hcounted.cls, hcls]
  have hcolumns : firstBranch (countedQuery C tree) = firstBranch tree := by
    rw [firstBranch_of_slot hqcls (hcounted.first.trans hfirst), firstBranch_of_slot hcls hfirst]
  rw [derived_of_setOperation hqcls]
  constructor
  · intro hlegal
    rw [← hcolumns]
    exact hlegal.columns
  · intro hnamed
    refine ⟨noWith_countedSetOperation hcls hlast hbranch h.leadingWith, fun b hb horder => ?_,
      hcolumns ▸ hnamed⟩
    rcases mem_branches hb with rfl | ⟨c, hc | hc, hb⟩
    · rw [hcounted.order] at horder
      rw [hasRowLimit_congr hcounted.limit, ← Bool.not_eq_false, hasRowLimit_eq_false_iff]
      exact fun hlimit => horder (if_pos hlimit)
    · rw [hcounted.first, hfirst, List.mem_singleton] at hc
      exact absurd (hordered b (hc ▸ hb)) horder
    · -- the last branch
      have hlastBranch : (if limitArgs last = [] then dropOrder last else last).cls.isSetOperation = false := by
        split <;> exact hbranch
      rw [hcounted.last, List.mem_singleton] at hc
      rw [hc, branches_of_branch hlastBranch, List.mem_singleton] at hb
      subst hb
      split at horder
      · exact absurd (slot_dropArgs_of_mem (by decide)) horder
      · rename_i hlimit
        rw [if_neg hlimit, ← Bool.not_eq_false, hasRowLimit_eq_false_iff]
        exact hlimit

/-- **As many rows**: an order that goes is one that no row limit reads. -/
theorem length_countedSetOperation (h : TsqlQuery tree) (hcls : tree.cls.isSetOperation = true) :
    (E.eval C db (tree.slot .with_) (countedQuery C tree)).length = (E.eval C db [] tree).length := by
  obtain ⟨first, last, hfirst, hlast, hbranch, -, hlayout⟩ := h.operands hcls
  have hcounted := countedSetOperation (C := C) hcls hlast hbranch
  have hnotSelect : ∀ q : Expr, q.cls = tree.cls → q.cls ≠ .select := fun q hq heq => by
    rw [← hq, heq] at hcls
    cases hcls
  have hscope : QueryEngine.scopeIn (tree.slot .with_) (countedQuery C tree) = tree.slot .with_ := by
    rw [QueryEngine.scopeIn, hcounted.with_, List.append_nil]
  have hhoisted : QueryEngine.scopeIn [] tree = tree.slot .with_ := List.nil_append _
  have hleft : E.operand C db (tree.slot .with_) (countedQuery C tree) .this = E.operand C db [] tree .this := by
    rw [QueryEngine.operand, QueryEngine.operand, hscope, hhoisted, RoseTree.arg, RoseTree.arg, hcounted.first]
  have hright : (E.operand C db (tree.slot .with_) (countedQuery C tree) .expression).Perm
      (E.operand C db [] tree .expression) := by
    rw [QueryEngine.operand, QueryEngine.operand, hscope, hhoisted, RoseTree.arg, RoseTree.arg, hcounted.last,
      hlast]
    simp only [List.head?_cons, Option.map_some, Option.getD_some]
    split
    · rename_i hlimit
      exact QueryEngine.eval_dropOrder_perm hlimit
    · exact List.Perm.refl _
  rw [QueryEngine.eval_of_not_select (hnotSelect _ hcounted.cls), QueryEngine.eval_of_not_select (hnotSelect _ rfl),
    hleft]
  by_cases hlimit : limitArgs tree = []
  · refine ((E.arranged_perm _ (hcounted.limit.trans hlimit)).length_eq).trans
      (Eq.trans ?_ (E.arranged_perm _ hlimit).length_eq.symm)
    rw [QueryEngine.combined_map_fst, QueryEngine.combined_map_fst, hcounted.cls, hcls]
    exact (E.combine_perm _ (List.Perm.refl _) hright).length_eq
  · -- with a row limit on the set operation the last branch has no order to lose
    have hnone : last.slot .order = [] := by
      by_contra hne
      exact hlimit (hasRowLimit_eq_false_iff.mp (hlayout hne).2)
    have hkept : (if limitArgs last = [] then dropOrder last else last) = last := by
      split
      · exact dropOrder_of_none hnone
      · rfl
    have hsame : E.operand C db (tree.slot .with_) (countedQuery C tree) .expression =
        E.operand C db [] tree .expression := by
      rw [QueryEngine.operand, QueryEngine.operand, hscope, hhoisted, RoseTree.arg, RoseTree.arg, hcounted.last,
        hkept, hlast]
    have horder : (countedQuery C tree).slot .order = tree.slot .order := hcounted.order.trans (if_neg hlimit)
    rw [hsame, QueryEngine.arranged_congr horder hcounted.limit, QueryEngine.combined, QueryEngine.combined,
      hcounted.cls, hcounted.first, horder]

theorem countsRight_setOperation_iff (h : TsqlQuery tree) (hcls : tree.cls.isSetOperation = true) :
    CountsRight C G tree (countOver (tree.slot .with_) (countedQuery C tree)) ↔
      NamedColumns C ((firstBranch tree).slot .expressions) := by
  have hlegal := legal_setOperation_iff (C := C) (G := G) h hcls
  constructor
  · rintro ⟨q, hq, hq', -⟩
    obtain rfl : countedQuery C tree = q := Option.some.inj hq
    exact hlegal.mp hq'
  · intro hnamed
    refine ⟨countedQuery C tree, rfl, hlegal.mpr hnamed, fun _ _ _ _ E db => ?_⟩
    obtain ⟨first, last, -, hlast, hbranch, -⟩ := h.operands hcls
    have hcounted := countedSetOperation (C := C) hcls hlast hbranch
    have hqcls : (countedQuery C tree).cls.isSetOperation = true := by rw [hcounted.cls, hcls]
    have hlength : (E.eval C db (tree.slot .with_) (countedQuery C tree)).length = (E.eval C db [] tree).length :=
      length_countedSetOperation h hcls
    rw [slot_with_countOver, derived_of_setOperation hqcls, QueryEngine.returnedRows, QueryEngine.returnedRows,
      hcounted.source]
    exact E.returned_length _ hlength

/-! ## The whole -/

/-- **When the count of a statement is right.** -/
structure CountsWhen (C : CaseMaps) (G : Generator) (tree : Expr) : Prop where
  /-- In a select no name is given twice, and none changes what ties. -/
  select : tree.cls = .select → NamesClear C G (tree.slot .expressions) ∧ TiesClear C G tree
  /-- In a set operation the columns of the first branch have names of their own. -/
  setOperation : tree.cls.isSetOperation = true → NamedColumns C ((firstBranch tree).slot .expressions)

/-- **`count_query` counts the right rows**: for every T-SQL query or set operation that a count statement is
returned for, the statement is legal and selects the right number on every database if and only if no name is
given twice, none changes what ties, and in a set operation the first branch names its columns itself. -/
theorem countQuery_right_iff (C : CaseMaps) (hlower : ∀ i, C.lower (madeUpName i) = madeUpName i) (G : Generator)
    (parse : String → Option (List (Option Expr))) (sql : String) (tree outer : Expr)
    (hparse : parse sql = some [some tree]) (htree : TsqlQuery tree)
    (hreturned : countQuery C parse sql = .ok outer) : CountsRight C G tree outer ↔ CountsWhen C G tree := by
  have houter : countOver (tree.slot .with_) (countedQuery C tree) = outer := by
    simp only [countQuery, hparse] at hreturned
    split at hreturned
    · exact Except.ok.inj hreturned
    · cases hreturned
  rw [← houter]
  rcases htree.root with hselect | hset
  · have hnot : ¬ tree.cls.isSetOperation = true := fun h => by rw [hselect] at h; cases h
    rw [countsRight_select_iff hlower hselect htree.leadingWith]
    exact ⟨fun h => ⟨fun _ => h, fun h' => absurd h' hnot⟩, fun h => h.select hselect⟩
  · have hnot : tree.cls ≠ .select := fun h => by rw [h] at hset; cases hset
    rw [countsRight_setOperation_iff htree hset]
    exact ⟨fun h => ⟨fun h' => absurd h' hnot, fun _ => h⟩, fun h => h.setOperation hset⟩

/-! ## A count that fails -/

/-- The names the generator gives: a column its own, any other `_col_` and its place. -/
def tsqlGenerator : Generator where
  label i e := if e.cls = .column ∧ e.name ≠ "" then e.name else "_col_" ++ toString i
  column _ _ hcls hname := if_pos ⟨hcls, hname⟩
  named i e := by
    split
    · rename_i h
      exact h.2
    · intro hempty
      have hlength := congrArg String.length hempty
      rw [String.length_append] at hlength
      have hpre : "_col_".length = 5 := rfl
      have hnone : "".length = 0 := rfl
      omega

theorem toLower_of_isDigit {c : Char} (hc : c.isDigit = true) : c.toLower = c := by
  refine toLower_of_not_upper c fun h => ?_
  have hA : 'A'.val = 65 := rfl
  rw [hA] at h
  simp only [Char.isDigit, Bool.and_eq_true, decide_eq_true_eq, ge_iff_le, UInt32.le_iff_toNat_le] at hc h
  have hupper : c.val.toNat ≤ 57 := hc.2
  have hlower : 65 ≤ c.val.toNat := h.1
  omega

/-- A name that is made up is in lower case. -/
theorem lower_madeUpName (i : ℕ) : asciiCase.lower (madeUpName i) = madeUpName i := by
  have hlist : (madeUpName i).toList = ['_', 'c'] ++ Nat.toDigits 10 (i + 1) := by
    rw [madeUpName, String.toList_append]
    exact congrArg (['_', 'c'] ++ ·) String.toList_ofList
  have hchars : (madeUpName i).toList.map Char.toLower = (madeUpName i).toList := by
    rw [hlist, List.map_append]
    have hdigits : (Nat.toDigits 10 (i + 1)).map Char.toLower = Nat.toDigits 10 (i + 1) :=
      (List.map_congr_left fun c hc => toLower_of_isDigit
        (Nat.isDigit_of_mem_toDigits (by decide) (by decide) hc)).trans (List.map_id _)
    rw [hdigits]
    rfl
  show String.ofList ((madeUpName i).toList.map Char.toLower) = madeUpName i
  rw [hchars, String.ofList_toList]

/-- `SELECT a.x, a.y AS …, b.x FROM a JOIN b ON a.x = b.x`. -/
def joinedColumns (label : String) : Expr :=
  Expr.selectFrom [] [Expr.columnRef "a" "x", .ofCls .alias [(.this, Expr.columnRef "a" "y"),
      (.alias, Expr.ident label)], Expr.columnRef "b" "x"]
    (Expr.tableRef "" "a" "") [Expr.joinOn (Expr.tableRef "" "b" "")
      (Expr.equals (Expr.columnRef "a" "x") (Expr.columnRef "b" "x"))]

theorem joinedColumns_tsqlQuery (label : String) : TsqlQuery (joinedColumns label) where
  root := .inl rfl
  leadingWith := rfl
  operands h := by cases h

/-- A repeated column is renamed, and the count is right. -/
theorem joinedColumns_countsRight : CountsRight asciiCase tsqlGenerator (joinedColumns "n")
    (countOver [] (countedQuery asciiCase (joinedColumns "n"))) := by
  refine (countQuery_right_iff asciiCase lower_madeUpName tsqlGenerator
    (fun _ => some [some (joinedColumns "n")]) "" (joinedColumns "n") _ rfl (joinedColumns_tsqlQuery "n")
    rfl).mpr ⟨fun _ => ⟨?_, ?_⟩, fun h => ?_⟩
  · exact (namesDistinct_iff lower_madeUpName).mp (by decide)
  · intro h
    exact absurd h (by decide)
  · cases h

/-- **A name made up is one written in front**: `SELECT a.x, a.y AS _c3, b.x …` is counted with two columns
`_c3`. -/
theorem writtenName_not_countsRight : TsqlQuery (joinedColumns "_c3") ∧
    countQuery asciiCase (fun _ => some [some (joinedColumns "_c3")])
      "SELECT a.x, a.y AS _c3, b.x FROM a JOIN b ON a.x = b.x" =
      .ok (countOver [] (countedQuery asciiCase (joinedColumns "_c3"))) ∧
    ¬ CountsRight asciiCase tsqlGenerator (joinedColumns "_c3")
      (countOver [] (countedQuery asciiCase (joinedColumns "_c3"))) := by
  refine ⟨joinedColumns_tsqlQuery "_c3", rfl, ?_⟩
  rintro ⟨q, hq, hlegal, -⟩
  obtain rfl : countedQuery asciiCase (joinedColumns "_c3") = q := Option.some.inj hq
  exact absurd hlegal.columns.distinct (by decide)

end LocalSqlAgent
