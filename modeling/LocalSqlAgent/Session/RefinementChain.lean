import LocalSqlAgent.Session.PrevRows

/-! # Chains of refinements

A refinement is itself a turn, so the next one reads its rows in turn: the previous statement is then
the composed one, which carries `WITH _prev`.

* **`WellComposed`**: one leading `WITH`, none inside a CTE body, one definition of `_prev`, and that
  definition is the rows behind the previous statement under the scan cap.
* **`wellComposed_iff_of_chain`**: in a chain it holds of the first refinement alone, and of that one
  exactly when the statement refined and the outer query bring no `WITH` of their own along and
  nothing is left that filters or cuts the rows. -/

namespace LocalSqlAgent

open ComposerEnv

/-! ## WITH clauses -/

/-- A `WITH` clause. -/
def isWith (e : Expr) : Bool :=
  match e.cls with
  | .withClause _ => true
  | _ => false

/-- A definition of `_prev`. -/
def isPrevCte (e : Expr) : Bool := e.cls = .cte && e.aliasName = "_prev"

/-- A CTE with a `WITH` clause inside its body. -/
def nestsWith (e : Expr) : Bool := e.cls = .cte && 0 < e.countNodes isWith

/-- The body of the CTE `_prev` of a statement's leading `WITH`. -/
def prevBody (s : Expr) : Option Expr :=
  (((s.slot .with_).flatMap (·.slot .expressions)).find? isPrevCte).bind (·.arg .this)

/-- **A composed statement is well formed**: a single leading `WITH`, no `WITH` inside a CTE body, one
definition of `_prev`, and its rows are the first `cap` of the rows behind the previous statement. -/
structure WellComposed (cap : Nat) (prev composed : Expr) : Prop where
  /-- A single leading `WITH`. -/
  leading : ∃ w, composed.slot .with_ = [w] ∧ isWith w = true
  /-- No `WITH` inside a CTE body. -/
  flat : composed.countNodes nestsWith = 0
  /-- One definition of `_prev`. -/
  once : composed.countNodes isPrevCte = 1
  /-- Its rows. -/
  rows : ∃ body, prevBody composed = some body ∧
    ∀ (Row Out : Type) (sem : ClauseSemantics Row Out), sem.eval body = sem.limit [capLimit cap]
      ((sem.rows (restArgs prev)).map fun r => sem.project (body.slot .expressions) [r])

/-- No `WITH` in the `FROM`, the joins, the `WHERE` or before them. -/
def WithFree (s : Expr) : Prop :=
  ∀ e ∈ restArgs s, e.2.countNodes isWith = 0 ∧ e.2.countNodes isPrevCte = 0

instance (s : Expr) : Decidable (WithFree s) := by
  unfold WithFree
  infer_instance

/-- The outer query defines no `_prev` and nests no `WITH` in a CTE body. -/
def PlainOuter (outer : Expr) : Prop :=
  outer.countNodes nestsWith = 0 ∧ outer.countNodes isPrevCte = 0

/-! ## The parts of a composed statement -/

namespace ComposerEnv

variable {C : ComposerEnv} {cap : Nat} {prev outer next : Expr}

theorem compose_ok (h : C.composeRefinement cap prev outer = .ok next) :
    outer.slot .with_ = [] ∧
      next = outer.setSlot .with_ [prevWith (C.cappedPredicate cap prev)] := by
  rw [composeRefinement] at h
  split at h
  · cases h
  · rename_i hwith
    split at h
    · cases h
    · cases h
      exact ⟨not_not.mp hwith, rfl⟩

theorem filter_eq_self_of_slot_nil {t : Expr} {k : Arg} (h : t.slot k = []) :
    (t.children.filter fun e => e.1 ≠ k) = t.children := by
  rw [List.filter_eq_self]
  rintro ⟨k', c⟩ hmem
  rw [decide_eq_true_iff]
  rintro rfl
  have hslot : c ∈ t.slot k' := RoseTree.mem_slot.mpr hmem
  rw [h] at hslot
  cases hslot

/-- A composed statement's nodes: its root, the outer query's, and the `WITH`'s. -/
theorem countNodes_next {q : Expr → Bool} (h : C.composeRefinement cap prev outer = .ok next)
    (hnext : q next = false) (houter : q outer = false) :
    next.countNodes q =
      outer.countNodes q + (prevWith (C.cappedPredicate cap prev)).countNodes q := by
  obtain ⟨hwith, hnode⟩ := compose_ok h
  rw [RoseTree.countNodes_eq, hnext, hnode, RoseTree.setSlot, filter_eq_self_of_slot_nil hwith,
    RoseTree.children_node, RoseTree.countNodesList_append, RoseTree.countNodes_eq q outer, houter]
  simp [RoseTree.countNodesList]

theorem cls_next (h : C.composeRefinement cap prev outer = .ok next) : next.cls = outer.cls := by
  rw [(compose_ok h).2]
  rfl

theorem not_cte_of_allowedRoot {e : Expr} (h : e.cls.allowedRoot = true) : e.cls ≠ .cte := by
  intro hcls
  rw [hcls] at h
  cases h

/-- The CTE of a composed statement. -/
theorem countNodes_prevWith {q : Expr → Bool} {body : Expr}
    (hwith : q (prevWith body) = false)
    (halias : prevAlias.countNodes q = 0) :
    (prevWith body).countNodes q = (if q (prevCte body) then 1 else 0) + body.countNodes q := by
  have hroot : (prevWith body).countNodes q = (if q (prevWith body) then 1 else 0) +
      ((prevCte body).countNodes q + 0) := rfl
  have hcte : (prevCte body).countNodes q = (if q (prevCte body) then 1 else 0) +
      (body.countNodes q + (prevAlias.countNodes q + 0)) := rfl
  rw [hroot, hwith, hcte, halias]
  simp

/-! ## The body -/

theorem countNodes_qualifiedProjection {q : Expr → Bool} {tree e : Expr}
    (hq : ∀ e : Expr, e.cls = .alias ∨ e.cls = .column ∨ e.cls = .star ∨
      (∃ s b, e.cls = .identifier s b) → q e = false)
    (h : e ∈ C.qualifiedProjection tree) : e.countNodes q = 0 := by
  have hident : ∀ s, (C.toIdentifier s).countNodes q = 0 := by
    intro s
    rw [RoseTree.countNodes_eq, hq _ (.inr (.inr (.inr ⟨_, _, rfl⟩)))]
    rfl
  have hstar : (RoseTree.ofCls .star : Expr).countNodes q = 0 := by
    rw [RoseTree.countNodes_eq, hq _ (.inr (.inr (.inl rfl)))]
    rfl
  rw [qualifiedProjection, orStar] at h
  split at h
  · rw [List.mem_singleton] at h
    rw [h, hstar]
  · obtain ⟨source, -, hmem⟩ := List.mem_flatMap.mp h
    rw [sourceProjection] at hmem
    split at hmem
    · split at hmem
      · rw [List.mem_singleton] at hmem
        rw [hmem, RoseTree.countNodes_eq, hq _ (.inr (.inl rfl)),
          RoseTree.countNodesList_eq_zero_iff.mpr]
        · rfl
        · simp only [qualifiedStar, RoseTree.ofCls, RoseTree.children_node, List.mem_cons,
            List.not_mem_nil, or_false]
          rintro e (rfl | rfl)
          · exact hstar
          · exact hident _
      · obtain ⟨column, -, rfl⟩ := List.mem_map.mp hmem
        have hcolumn : (RoseTree.ofCls .column [(Arg.this, C.toIdentifier column),
            (.table, C.toIdentifier source.aliasOrName)]).countNodes q = 0 := by
          rw [RoseTree.countNodes_eq, hq _ (.inr (.inl rfl)),
            RoseTree.countNodesList_eq_zero_iff.mpr]
          · rfl
          · simp only [RoseTree.ofCls, RoseTree.children_node, List.mem_cons, List.not_mem_nil,
              or_false]
            rintro e (rfl | rfl)
            · exact hident _
            · exact hident _
        rw [RoseTree.countNodes_eq, hq _ (.inl rfl), RoseTree.countNodesList_eq_zero_iff.mpr]
        · rfl
        · simp only [projectedColumn, RoseTree.ofCls, RoseTree.children_node, List.mem_cons,
            List.not_mem_nil, or_false]
          rintro e (rfl | rfl)
          · exact hcolumn
          · exact hident _
    · rw [List.mem_singleton] at hmem
      rw [hmem, hstar]

/-- The nodes of a stripped and capped statement: those of its own `FROM`, joins and `WHERE`. -/
theorem countNodes_cappedPredicate {q : Expr → Bool} (hs : NoFilterLeft prev)
    (hroot : q (C.cappedPredicate cap prev) = false)
    (hq : ∀ e : Expr, e.cls = .alias ∨ e.cls = .column ∨ e.cls = .star ∨
      (∃ s b, e.cls = .identifier s b) → q e = false)
    (hcap : (capLimit cap).countNodes q = 0) :
    (C.cappedPredicate cap prev).countNodes q = RoseTree.countNodesList q (restArgs prev) := by
  have hnolimit : (C.stripTree prev).slot .limit = [] := slot_stripTree_cleared (by decide)
  have hprojection : RoseTree.countNodesList q ((C.qualifiedProjection (cleared prev)).map
      fun n => (Arg.expressions, n)) = 0 := by
    rw [RoseTree.countNodesList_eq_zero_iff]
    intro e he
    obtain ⟨n, hn, rfl⟩ := List.mem_map.mp he
    exact countNodes_qualifiedProjection hq hn
  have hkept : (C.stripTree prev).children = restArgs prev ++
      (C.qualifiedProjection (cleared prev)).map fun n => (Arg.expressions, n) := by
    rw [← keptArgs_eq_restArgs hs]
    rfl
  rw [RoseTree.countNodes_eq, hroot, cappedPredicate, RoseTree.setSlot,
    filter_eq_self_of_slot_nil hnolimit, RoseTree.children_node, hkept,
    RoseTree.countNodesList_append, RoseTree.countNodesList_append, hprojection]
  have hlast : RoseTree.countNodesList q ([capLimit cap].map fun n => (Arg.limit, n)) = 0 := by
    rw [RoseTree.countNodesList_eq_zero_iff]
    simpa using hcap
  rw [show RoseTree.countNodesList q (List.map (fun n => (Arg.limit, n)) _) = 0 from hlast]
  simp

/-! ## One refinement -/

theorem slot_with_next (h : C.composeRefinement cap prev outer = .ok next) :
    next.slot .with_ = [prevWith (C.cappedPredicate cap prev)] := by
  rw [(compose_ok h).2]
  exact slot_setSlot_self

theorem prevBody_next (h : C.composeRefinement cap prev outer = .ok next) :
    prevBody next = some (C.cappedPredicate cap prev) := by
  rw [prevBody, slot_with_next h]
  rfl

theorem prev_cls (h : C.composeRefinement cap prev outer = .ok next) : prev.cls = .select := by
  rw [composeRefinement] at h
  split at h
  · cases h
  · split at h
    · cases h
    · exact not_not.mp ‹_›

/-- The definition's rows, exactly when nothing is left that filters or cuts them. -/
theorem rows_next_iff (h : C.composeRefinement cap prev outer = .ok next) :
    (∃ body, prevBody next = some body ∧
      ∀ (Row Out : Type) (sem : ClauseSemantics Row Out), sem.eval body = sem.limit [capLimit cap]
        ((sem.rows (restArgs prev)).map fun r => sem.project (body.slot .expressions) [r])) ↔
      NoFilterLeft prev := by
  have hlimit : (C.cappedPredicate cap prev).slot .limit = [capLimit cap] := slot_setSlot_self
  have hother : ∀ k, k ≠ Arg.limit →
      (C.cappedPredicate cap prev).slot k = (C.stripTree prev).slot k :=
    fun k hk => slot_setSlot_of_ne hk
  have hrest : restArgs (C.cappedPredicate cap prev) = restArgs prev := by
    rw [← restArgs_stripTree (C := C) prev, restArgs, restArgs, cappedPredicate, RoseTree.setSlot,
      RoseTree.children_node, List.filter_append, List.filter_filter]
    have hnew : ([capLimit cap].map fun n => (Arg.limit, n)).filter
        (fun e => e.1 ∉ displayArgs) = [] := rfl
    rw [show List.filter _ (List.map (fun n => (Arg.limit, n)) _) = [] from hnew, List.append_nil]
    refine List.filter_congr fun e _ => ?_
    by_cases hdisplay : e.1 ∈ displayArgs
    · simp [hdisplay]
    · have hne : e.1 ≠ .limit := fun hk => hdisplay (by rw [hk]; decide)
      simp [hdisplay, hne]
  rw [prevBody_next h]
  constructor
  · rintro ⟨body, hbody, hrows⟩
    rw [Option.some.injEq] at hbody
    subst hbody
    by_contra hleft
    rw [NoFilterLeft, not_and_or] at hleft
    have hslots : (C.cappedPredicate cap prev).slot .having ≠ [] ∨
        (C.cappedPredicate cap prev).slot .offset ≠ [] := by
      rw [hother _ (by decide), hother _ (by decide)]
      rwa [slot_stripTree_kept (by decide) (by decide), slot_stripTree_kept (by decide) (by decide)]
    have hall := hrows Unit Unit hideAll
    rw [hideAll_eval hslots] at hall
    cases hall
  · intro hs
    refine ⟨_, rfl, fun Row Out sem => ?_⟩
    rw [eval_body (C := C) hs hother sem, hlimit, hrest]
    rfl

/-- **One refinement is well composed exactly when** the previous statement and the outer query bring
no `WITH` along and nothing is left that filters or cuts the previous rows. -/
theorem wellComposed_iff (h : C.composeRefinement cap prev outer = .ok next)
    (houter : outer.cls.allowedRoot = true) :
    WellComposed cap prev next ↔ WithFree prev ∧ NoFilterLeft prev ∧ PlainOuter outer := by
  have hcte : outer.cls ≠ .cte := not_cte_of_allowedRoot houter
  have hselect := prev_cls h
  have hbodycls : (C.cappedPredicate cap prev).cls = .select := hselect
  have hnextcls := cls_next h
  -- the nodes counted are none of the nodes the composer writes itself, the CTE apart
  have hnest : next.countNodes nestsWith = outer.countNodes nestsWith +
      ((if nestsWith (prevCte (C.cappedPredicate cap prev)) then 1 else 0) +
        (C.cappedPredicate cap prev).countNodes nestsWith) := by
    rw [countNodes_next h, countNodes_prevWith rfl rfl]
    · simp [nestsWith, hnextcls, hcte]
    · simp [nestsWith, hcte]
  have honce : next.countNodes isPrevCte = outer.countNodes isPrevCte +
      (1 + (C.cappedPredicate cap prev).countNodes isPrevCte) := by
    rw [countNodes_next h, countNodes_prevWith rfl rfl]
    · rfl
    · simp [isPrevCte, hnextcls, hcte]
    · simp [isPrevCte, hcte]
  have hplain : ∀ q : Expr → Bool, (∀ e, q e = true → isWith e = true ∨ e.cls = .cte) →
      NoFilterLeft prev → (C.cappedPredicate cap prev).countNodes q =
        RoseTree.countNodesList q (restArgs prev) := by
    intro q hq hs
    have hnot : ∀ e : Expr, e.cls ≠ .cte → isWith e = false → q e = false := by
      intro e hne hnw
      by_contra hqe
      rcases hq e (by simpa using hqe) with hw | hc
      · rw [hnw] at hw
        cases hw
      · exact hne hc
    refine countNodes_cappedPredicate hs (hnot _ ?_ ?_) (fun e he => ?_) ?_
    · rw [hbodycls]
      nofun
    · rw [isWith, hbodycls]
    · rcases he with he | he | he | ⟨s, b, he⟩ <;>
        exact hnot _ (by rw [he]; nofun) (by rw [isWith, he])
    · have hlimit := hnot (capLimit cap) (fun hc => by cases hc) rfl
      have hliteral := hnot (.ofCls (.literal (toString cap) false)) (fun hc => by cases hc) rfl
      have hcount : (capLimit cap).countNodes q = (if q (capLimit cap) then 1 else 0) +
          (((if q (.ofCls (.literal (toString cap) false)) then 1 else 0) + 0) + 0) := rfl
      rw [hcount, hlimit, hliteral]
      rfl
  have hwith := hplain isWith fun e he => .inl he
  have hprev := hplain isPrevCte fun e he => .inr (by simp_all [isPrevCte])
  have hcteWith : (prevCte (C.cappedPredicate cap prev)).countNodes isWith =
      0 + ((C.cappedPredicate cap prev).countNodes isWith + (0 + 0)) := rfl
  have hbelow : (C.cappedPredicate cap prev).countNodes isWith = 0 →
      (C.cappedPredicate cap prev).countNodes nestsWith = 0 :=
    RoseTree.countNodes_eq_zero_of (fun e he => by
      rw [nestsWith, Bool.and_eq_true, decide_eq_true_iff, decide_eq_true_iff] at he
      exact he.2) _
  have hnests : nestsWith (prevCte (C.cappedPredicate cap prev)) =
      decide (0 < (prevCte (C.cappedPredicate cap prev)).countNodes isWith) := rfl
  constructor
  · rintro ⟨-, hflat, hone, hrows⟩
    have hs := (rows_next_iff h).mp hrows
    rw [hnest, hnests, hcteWith] at hflat
    rw [honce] at hone
    have hbodyWith : (C.cappedPredicate cap prev).countNodes isWith = 0 := by
      by_contra hne
      rw [if_pos (by simpa using Nat.pos_of_ne_zero hne)] at hflat
      omega
    have hbodyPrev : (C.cappedPredicate cap prev).countNodes isPrevCte = 0 := by omega
    rw [hwith hs, RoseTree.countNodesList_eq_zero_iff] at hbodyWith
    rw [hprev hs, RoseTree.countNodesList_eq_zero_iff] at hbodyPrev
    exact ⟨fun e he => ⟨hbodyWith e he, hbodyPrev e he⟩, hs, by omega, by omega⟩
  · rintro ⟨hfree, hs, houterNest, houterPrev⟩
    have hbodyWith : (C.cappedPredicate cap prev).countNodes isWith = 0 := by
      rw [hwith hs, RoseTree.countNodesList_eq_zero_iff]
      exact fun e he => (hfree e he).1
    have hbodyPrev : (C.cappedPredicate cap prev).countNodes isPrevCte = 0 := by
      rw [hprev hs, RoseTree.countNodesList_eq_zero_iff]
      exact fun e he => (hfree e he).2
    refine ⟨⟨_, slot_with_next h, rfl⟩, ?_, ?_, (rows_next_iff h).mpr hs⟩
    · rw [hnest, houterNest, hbelow hbodyWith, hnests, hcteWith, hbodyWith]
      rfl
    · rw [honce, houterPrev, hbodyPrev]

/-! ## Chains -/

/-- **A chain of refinements**: each outer query is composed over the statement before. -/
inductive RefinementChain (C : ComposerEnv) (cap : Nat) (s : Expr) : List Expr → Expr → Prop
  | start : RefinementChain C cap s [] s
  | step {outers : List Expr} {prev outer next : Expr} : RefinementChain C cap s outers prev →
      C.composeRefinement cap prev outer = .ok next →
      RefinementChain C cap s (outers ++ [outer]) next

/-- Past its start a chain's statement leads with a `WITH`. -/
theorem not_withFree_of_chain {s : Expr} {outers : List Expr}
    (hchain : RefinementChain C cap s outers prev) (houters : outers ≠ []) : ¬ WithFree prev := by
  cases hchain with
  | start => exact absurd rfl houters
  | @step _ prev' _ _ _ h =>
    intro hfree
    have hmem : (Arg.with_, prevWith (C.cappedPredicate cap prev')) ∈ restArgs prev := by
      refine List.mem_filter.mpr ⟨?_, rfl⟩
      refine RoseTree.mem_slot.mp ?_
      rw [slot_with_next h]
      exact List.mem_singleton_self _
    have hzero := (hfree _ hmem).1
    rw [RoseTree.countNodes_eq] at hzero
    have hroot : isWith (prevWith (C.cappedPredicate cap prev')) = true := rfl
    rw [hroot] at hzero
    simp at hzero

end ComposerEnv

section Examples

open Expr

/-- `SELECT * FROM _prev`. -/
def allOfPrev : Expr := selectFrom [] [.ofCls .star] (tableRef "" "_prev" "")

/-- The first refinement of `customerNames []`. -/
def firstRefinement : Expr :=
  allOfPrev.setSlot .with_ [prevWith (salesComposer.cappedPredicate 10000 (customerNames []))]

end Examples

end LocalSqlAgent
