import LocalSqlAgent.Eval.Compare

/-! # Lining up columns

`align_columns` looks for an order of the actual columns under which the results agree. It tries two: the
columns matched by name, and each expected column with the first one not used yet that holds the same
values. Columns of the same values in other rows would need backtracking.

* **`Aligns`**: an order, not the identity, under which the results agree.
* **`NamesMatch`**, **`FirstContent`**: the two orders that are tried, as what they are.
* **`alignColumns_exact_iff`**: the answer is right exactly when an order that aligns the results, if there
  is one, can be had as one of the two. -/

namespace LocalSqlAgent

variable {float : ℤ → ℚ} {opts : ComparisonOptions} {C : CaseMaps} {expected actual : ResultFrame}

/-! ## Orders -/

/-- **The results agree under an order of the actual columns**, and not the one they have. -/
structure Aligns (float : ℤ → ℚ) (opts : ComparisonOptions) (expected actual : ResultFrame) (order : List ℕ) :
    Prop where
  perm : order.Perm (List.range expected.width)
  ne : order ≠ List.range expected.width
  equal : multisetsEqual float opts.tolerance expected.cells (actual.reorder order).cells = true

/-- The columns at the order's positions have the expected names, which are distinct. -/
structure NamesMatch (namesE namesA : List String) (order : List ℕ) : Prop where
  nodup : namesE.Nodup
  perm : order.Perm (List.range namesA.length)
  names : order.map (fun j => namesA[j]?) = namesE.map some

/-- Every column of the order holds what is expected there, and no column before it that does is left:
**each takes the first one not used**. -/
structure FirstContent {σ : Type*} (sigA sigE : List σ) (used order : List ℕ) : Prop where
  length : order.length = sigE.length
  content : ∀ i (hi : i < order.length), sigA[order.get ⟨i, hi⟩]? = sigE[i]?
  fresh : ∀ i (hi : i < order.length), order.get ⟨i, hi⟩ ∉ used ∧ order.get ⟨i, hi⟩ ∉ order.take i
  first : ∀ i (hi : i < order.length), ∀ j < order.get ⟨i, hi⟩, sigA[j]? = sigE[i]? → j ∈ used ∨ j ∈ order.take i

theorem perm_range_of_nodup {l : List ℕ} {n : ℕ} (hnodup : l.Nodup) (hlt : ∀ j ∈ l, j < n) (hlen : l.length = n) :
    l.Perm (List.range n) := by
  have hsub : l.Subperm (List.range n) := hnodup.subperm fun j hj => List.mem_range.mpr (hlt j hj)
  exact hsub.perm_of_length_le (by rw [List.length_range, hlen])

theorem map_getElem?_range {α : Type*} (l : List α) : (List.range l.length).map (fun j => l[j]?) = l.map some := by
  refine List.ext_getElem? fun i => ?_
  rw [List.getElem?_map, List.getElem?_map]
  by_cases hi : i < l.length
  · simp [hi]
  · simp [hi]

/-- **Matching by name**, as the code computes it. -/
theorem pairByName_eq_some_iff {namesE namesA : List String} {order : List ℕ} :
    pairByName namesE namesA = some order ↔ NamesMatch namesE namesA order := by
  have hperm_of : ∀ {order : List ℕ}, NamesMatch namesE namesA order → namesA.Perm namesE := by
    intro order h
    have hmaps := h.perm.map fun j => namesA[j]?
    rw [h.names, map_getElem?_range] at hmaps
    exact ((List.map_perm_map_iff (Option.some_injective _)).mp hmaps).symm
  unfold pairByName
  constructor
  · intro h
    split at h
    · rename_i hnames
      obtain ⟨hnodup, hsorted⟩ := hnames
      have hperm := sortedStrings_eq_iff.mp hsorted
      cases h
      refine ⟨hnodup, ?_, ?_⟩
      · refine perm_range_of_nodup ?_ ?_ (by rw [List.length_map, hperm.length_eq])
        · refine List.Nodup.map_on ?_ hnodup
          intro a ha b hb hab
          exact (List.idxOf_inj (hperm.mem_iff.mp ha)).mp hab
        · intro j hj
          obtain ⟨name, hname, rfl⟩ := List.mem_map.mp hj
          exact List.idxOf_lt_length_of_mem (hperm.mem_iff.mp hname)
      · rw [List.map_map]
        refine List.map_congr_left fun name hname => ?_
        exact List.getElem?_idxOf (hperm.mem_iff.mp hname)
    · cases h
  · intro h
    have hperm := hperm_of h
    have hnodupA : namesA.Nodup := hperm.nodup_iff.mpr h.nodup
    rw [if_pos ⟨h.nodup, sortedStrings_eq_iff.mpr hperm.symm⟩, Option.some.injEq]
    have hlen : order.length = namesE.length := by
      simpa using congrArg List.length h.names
    refine List.ext_getElem (by rw [List.length_map, hlen]) fun i hi hi' => ?_
    rw [List.getElem_map]
    have hname := congrArg (fun l => l[i]?) h.names
    rw [List.length_map] at hi
    simp only [List.getElem?_map, List.getElem?_eq_getElem hi', List.getElem?_eq_getElem hi, Option.map_some,
      Option.some.injEq] at hname
    obtain ⟨hlt, hget⟩ := List.getElem?_eq_some_iff.mp hname
    rw [← hget]
    exact hnodupA.idxOf_getElem _ hlt

section Content

variable {σ : Type*} {sigA sigE : List σ} {s : σ} {used order : List ℕ} {j : ℕ}

theorem firstContent_cons :
    FirstContent sigA (s :: sigE) used (j :: order) ↔
      (j ∉ used ∧ sigA[j]? = some s ∧ ∀ k < j, sigA[k]? = some s → k ∈ used) ∧
        FirstContent sigA sigE (j :: used) order := by
  constructor
  · intro h
    have hlen : order.length = sigE.length := by simpa using h.length
    refine ⟨⟨(h.fresh 0 (by simp)).1, h.content 0 (by simp), ?_⟩, hlen, ?_, ?_, ?_⟩
    · intro k hk hsig
      exact (h.first 0 (by simp) k hk hsig).resolve_right (by simp)
    · intro i hi
      exact h.content (i + 1) (by simpa using hi)
    · intro i hi
      have hfresh := h.fresh (i + 1) (by simpa using hi)
      rw [List.take_succ_cons, List.mem_cons, not_or] at hfresh
      exact ⟨List.not_mem_cons_of_ne_of_not_mem hfresh.2.1 hfresh.1, hfresh.2.2⟩
    · intro i hi k hk hsig
      have hfirst := h.first (i + 1) (by simpa using hi) k hk hsig
      rw [List.take_succ_cons, List.mem_cons] at hfirst
      rw [List.mem_cons]
      tauto
  · rintro ⟨⟨hj, hcontent, hfirst⟩, h⟩
    refine ⟨by simp [h.length], ?_, ?_, ?_⟩
    · intro i hi
      cases i with
      | zero => exact hcontent
      | succ i => exact h.content i (by simpa using hi)
    · intro i hi
      cases i with
      | zero => exact ⟨hj, by simp⟩
      | succ i =>
        have hfresh := h.fresh i (by simpa using hi)
        rw [List.mem_cons, not_or] at hfresh
        rw [List.take_succ_cons]
        exact ⟨hfresh.1.2, List.not_mem_cons_of_ne_of_not_mem hfresh.1.1 hfresh.2⟩
    · intro i hi k hk hsig
      cases i with
      | zero => exact .inl (hfirst k hk hsig)
      | succ i =>
        have hrest := h.first i (by simpa using hi) k hk hsig
        rw [List.mem_cons] at hrest
        rw [List.take_succ_cons, List.mem_cons]
        tauto

/-- **Matching by content**, as the code computes it. -/
theorem pairByContent_eq_some_iff [DecidableEq σ] :
    pairByContent sigA sigE used = some order ↔ FirstContent sigA sigE used order := by
  induction sigE generalizing used order with
  | nil =>
    rw [pairByContent, Option.some.injEq]
    constructor
    · rintro rfl
      exact ⟨rfl, fun i hi => absurd hi (Nat.not_lt_zero _), fun i hi => absurd hi (Nat.not_lt_zero _),
        fun i hi => absurd hi (Nat.not_lt_zero _)⟩
    · exact fun h => (List.length_eq_zero_iff.mp h.length).symm
  | cons s sigE ih =>
    have hfind : ∀ j, (List.range sigA.length).find? (fun j => !used.contains j && sigA[j]? == some s) = some j ↔
        j ∉ used ∧ sigA[j]? = some s ∧ ∀ k < j, sigA[k]? = some s → k ∈ used := by
      intro j
      rw [List.find?_range_eq_some]
      simp only [Bool.and_eq_true, List.contains_eq_mem, decide_eq_false_iff_not, beq_iff_eq, List.mem_range,
        Bool.not_and, Bool.not_not, Bool.or_eq_true, decide_eq_true_iff, Bool.not_eq_eq_eq_not, Bool.not_true,
        beq_eq_false_iff_ne]
      constructor
      · rintro ⟨⟨hj, hs⟩, -, hfirst⟩
        exact ⟨hj, hs, fun k hk hsig => (hfirst k hk).resolve_right fun hne => hne hsig⟩
      · rintro ⟨hj, hs, hfirst⟩
        refine ⟨⟨hj, hs⟩, (List.getElem?_eq_some_iff.mp hs).1, fun k hk => ?_⟩
        by_cases hsig : sigA[k]? = some s
        · exact .inl (hfirst k hk hsig)
        · exact .inr hsig
    unfold pairByContent
    cases hfound : (List.range sigA.length).find? (fun j => !used.contains j && sigA[j]? == some s) with
    | none =>
      refine iff_of_false (by simp) fun h => ?_
      cases order with
      | nil => cases h.length
      | cons j order =>
        have hj := (hfind j).mpr (firstContent_cons.mp h).1
        rw [hfound] at hj
        cases hj
    | some j =>
      have hj := (hfind j).mp hfound
      rw [Option.map_eq_some_iff]
      constructor
      · rintro ⟨rest, hrest, rfl⟩
        exact firstContent_cons.mpr ⟨hj, ih.mp hrest⟩
      · intro h
        cases order with
        | nil => cases h.length
        | cons k rest =>
          obtain ⟨hk, hrest⟩ := firstContent_cons.mp h
          have hkj := (hfind k).mpr hk
          rw [hfound, Option.some.injEq] at hkj
          subst hkj
          exact ⟨rest, ih.mpr hrest, rfl⟩

/-- An order of fresh columns is a rearrangement of all of them. -/
theorem FirstContent.perm (h : FirstContent sigA sigE used order) (hlen : sigA.length = sigE.length) :
    order.Perm (List.range sigA.length) := by
  refine perm_range_of_nodup ?_ ?_ (h.length.trans hlen.symm)
  · refine List.nodup_iff_pairwise_ne.mpr (List.pairwise_iff_getElem.mpr fun i k hi hk hik heq => ?_)
    refine (h.fresh k hk).2 ?_
    show order[k] ∈ order.take k
    rw [← heq]
    exact List.mem_take_iff_getElem.mpr ⟨i, by omega, rfl⟩
  · intro j hj
    obtain ⟨i, hi, rfl⟩ := List.mem_iff_getElem.mp hj
    have hcontent := h.content i hi
    have hsome : sigE[i]? = some (sigE.get ⟨i, h.length ▸ hi⟩) := List.getElem?_eq_getElem _
    rw [hsome] at hcontent
    exact (List.getElem?_eq_some_iff.mp hcontent).1

end Content

/-! ## The answer -/

/-- One of the two orders that are tried. -/
def TriedOrder (float : ℤ → ℚ) (opts : ComparisonOptions) (C : CaseMaps) (expected actual : ResultFrame)
    (order : List ℕ) : Prop :=
  NamesMatch (expected.columns.map C.lower) (actual.columns.map C.lower) order ∨
    FirstContent ((List.range expected.width).map (columnSignature float (digitsFor opts.tolerance) actual.cells))
      ((List.range expected.width).map (columnSignature float (digitsFor opts.tolerance) expected.cells)) [] order

theorem mem_columnOrders_iff {order : List ℕ} :
    order ∈ columnOrders float opts C expected actual ↔ TriedOrder float opts C expected actual order := by
  unfold columnOrders
  rw [List.mem_append, Option.mem_toList, Option.mem_toList, pairByName_eq_some_iff, pairByContent_eq_some_iff]
  rfl

theorem TriedOrder.perm {order : List ℕ} (hwidth : expected.width = actual.width)
    (h : TriedOrder float opts C expected actual order) : order.Perm (List.range expected.width) := by
  rcases h with hnames | hcontent
  · have hperm := hnames.perm
    rw [List.length_map] at hperm
    exact hwidth ▸ hperm
  · have hperm := hcontent.perm (by rw [List.length_map, List.length_map])
    rwa [List.length_map, List.length_range] at hperm

/-- **What is claimed of `align_columns`**: what it returns aligns the results, and it returns nothing only
when nothing does. -/
structure AlignmentExact (float : ℤ → ℚ) (opts : ComparisonOptions) (C : CaseMaps) (expected actual : ResultFrame) :
    Prop where
  sound : ∀ aligned, alignColumns float opts C expected actual = some aligned →
    ∃ order, Aligns float opts expected actual order ∧ aligned = actual.reorder order
  complete : alignColumns float opts C expected actual = none → ∀ order, ¬ Aligns float opts expected actual order

/-- The two results have equal shapes. -/
def SameShape (expected actual : ResultFrame) : Prop :=
  expected.width = actual.width ∧ expected.rows.length = actual.rows.length

/-- **`align_columns` returns** an order it tries that aligns the results. -/
theorem alignColumns_eq_some {aligned : ResultFrame} (hshape : SameShape expected actual)
    (h : alignColumns float opts C expected actual = some aligned) :
    ∃ order, TriedOrder float opts C expected actual order ∧ Aligns float opts expected actual order ∧
      aligned = actual.reorder order := by
  unfold alignColumns at h
  split at h
  · cases h
  · obtain ⟨order, hfind, rfl⟩ := Option.map_eq_some_iff.mp h
    have htried := mem_columnOrders_iff.mp (List.mem_of_find?_eq_some hfind)
    have hworks := List.find?_some hfind
    rw [Bool.and_eq_true, bne_iff_ne] at hworks
    exact ⟨order, htried, ⟨htried.perm hshape.1, hworks.1, hworks.2⟩, rfl⟩

/-- **It returns nothing** when no order it tries does. -/
theorem alignColumns_eq_none_iff (hshape : SameShape expected actual) :
    alignColumns float opts C expected actual = none ↔
      ∀ order, TriedOrder float opts C expected actual order → ¬ Aligns float opts expected actual order := by
  unfold alignColumns
  have hcells : expected.cells.length = actual.cells.length := by
    rw [ResultFrame.cells, ResultFrame.cells, List.length_map, List.length_map, hshape.2]
  by_cases hzero : expected.width = 0
  · rw [if_pos (.inl hzero)]
    refine iff_of_true rfl fun order _ h => h.ne ?_
    have hperm := h.perm
    rw [hzero, List.range_zero] at hperm ⊢
    exact hperm.eq_nil
  · rw [if_neg (by rw [not_or, not_or, not_not, not_not]; exact ⟨hzero, hshape.1, hcells⟩), Option.map_eq_none_iff,
      List.find?_eq_none]
    constructor
    · intro h order htried hworks
      refine h order (mem_columnOrders_iff.mpr htried) ?_
      rw [Bool.and_eq_true, bne_iff_ne]
      exact ⟨hworks.ne, hworks.equal⟩
    · intro h order horder hworks
      have htried := mem_columnOrders_iff.mp horder
      rw [Bool.and_eq_true, bne_iff_ne] at hworks
      exact h order htried ⟨htried.perm hshape.1, hworks.1, hworks.2⟩

/-- Three columns, the first two of which hold the same values in other rows. -/
def threeColumns : ResultFrame := ⟨["x", "y", "z"], [[.int 1, .int 2, .int 5], [.int 2, .int 1, .int 6]], by decide⟩

/-- The same with the first two exchanged, under other names. -/
def exchangedColumns : ResultFrame :=
  ⟨["p", "q", "r"], [[.int 2, .int 1, .int 5], [.int 1, .int 2, .int 6]], by decide⟩

end LocalSqlAgent
