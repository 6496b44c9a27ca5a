import LocalSqlAgent.Eval.MultisetVerdict

/-! # Where the reference decides the order

`compare_frames` with `ordered`: equal multisets, and then either the keys compared position by position or
whole rows. With tolerance zero and exact numbers a cell agrees with another when their values are equal,
the sort finds every pairing, and the two tests together say that rows moved only among ties.

* **`SameRow`**: rows of equal values, `3` and `3.0` the same.
* **`multisetsEqual_zero_iff`**: the multiset test is exact here.
* **`PermutesTies`**: a rearrangement that moves rows only among positions with equal keys.
* **`compareFrames_ordered_iff`**: the verdict. -/

namespace LocalSqlAgent

/-! ## Exact comparison -/

/-- A cell's value: an integer is the number it is. -/
def Cell.value : Cell → Cell
  | .int n => .num n
  | c => c

/-- The values of a row. -/
def rowValue (row : CellRow) : CellRow := row.map Cell.value

/-- **Rows of equal values.** -/
def SameRow (a b : CellRow) : Prop := rowValue a = rowValue b

/-- `float(n)` that keeps every integer. -/
def exactFloat (n : ℤ) : ℚ := n

@[simp] theorem isNumeric_value (c : Cell) : c.value.isNumeric = c.isNumeric := by cases c <;> rfl

@[simp] theorem number?_value (c : Cell) : c.value.number? exactFloat = c.number? exactFloat := by
  cases c <;> rfl

theorem closeNumbers_zero {x y : ℚ} : closeNumbers 0 x y = true ↔ x = y := by
  simp only [closeNumbers, zero_mul, Bool.or_eq_true, beq_iff_eq, decide_eq_true_iff, abs_nonpos_iff, sub_eq_zero,
    or_self]

/-- Cells agree when their values are equal. -/
theorem cellsEqual_zero_iff {a b : Cell} : cellsEqual exactFloat 0 a b = true ↔ a.value = b.value := by
  cases a <;> cases b <;>
    simp [cellsEqual, Cell.number?, Cell.value, closeNumbers_zero, exactFloat]

theorem rowsEqual_zero_iff {a b : CellRow} : rowsEqual exactFloat 0 a b = true ↔ SameRow a b := by
  rw [rowsEqual_iff, SameRow, rowValue, rowValue, ← List.forall₂_eq_eq_eq, List.forall₂_map_left_iff,
    List.forall₂_map_right_iff]
  simp only [cellsEqual_zero_iff]

theorem signature_rowValue (row : CellRow) : signature (rowValue row) = signature row := by
  rw [signature, signature, rowValue, List.map_map]
  refine List.map_congr_left fun c _ => ?_
  cases c <;> rfl

theorem rowKey_rowValue (row : CellRow) : rowKey exactFloat 0 (rowValue row) = rowKey exactFloat 0 row := by
  have hnumeric : numericPart (rowValue row) = (numericPart row).map Cell.value := by
    rw [numericPart, rowValue, List.filter_map, numericPart]
    congr 1
    exact List.filter_congr fun c _ => isNumeric_value c
  rw [rowKey, rowKey, sortKey, sortKey, hnumeric, List.filterMap_map]
  exact List.filterMap_congr fun c _ => by rw [Function.comp_apply, number?_value]

theorem rowKey_cons (c : Cell) (row : CellRow) :
    rowKey exactFloat 0 (c :: row) = (c.number? exactFloat).toList ++ rowKey exactFloat 0 row := by
  have hdigits : digitsFor 0 = none := if_pos le_rfl
  rw [rowKey, rowKey, numericPart, numericPart, hdigits]
  cases c <;> rfl

/-- **A row's values are its signature and its sort key.** -/
theorem rowValue_eq_of_key {a b : CellRow} (hsig : signature a = signature b)
    (hkey : rowKey exactFloat 0 a = rowKey exactFloat 0 b) : rowValue a = rowValue b := by
  induction a generalizing b with
  | nil =>
    cases b with
    | nil => rfl
    | cons y b => cases hsig
  | cons x a ih =>
    cases b with
    | nil => cases hsig
    | cons y b =>
      obtain ⟨hxy, hrest⟩ := List.cons.inj hsig
      rw [rowKey_cons, rowKey_cons] at hkey
      have hcell : x.value = y.value ∧ rowKey exactFloat 0 a = rowKey exactFloat 0 b := by
        cases x <;> cases y <;> simp_all [Cell.isNumeric, Cell.number?, Cell.value, exactFloat]
      rw [rowValue, List.map_cons, hcell.1]
      exact congrArg _ (ih hrest hcell.2)

/-- Rows of the same values stand at the same places once sorted. -/
theorem sortByKey_rowValue_of_perm {rows rows' : List CellRow} {sig : List (Option Cell)}
    (hsig : ∀ row ∈ rows, signature row = sig) (h : (rows.map rowValue).Perm (rows'.map rowValue)) :
    (sortByKey (rowKey exactFloat 0) rows).map rowValue = (sortByKey (rowKey exactFloat 0) rows').map rowValue := by
  have hsort : ∀ rows : List CellRow, (sortByKey (rowKey exactFloat 0) rows).map rowValue =
      sortByKey (rowKey exactFloat 0) (rows.map rowValue) := by
    intro rows
    have hkeys : rowKey exactFloat 0 = fun row => rowKey exactFloat 0 (rowValue row) :=
      funext fun row => (rowKey_rowValue row).symm
    conv_lhs => rw [hkeys]
    exact map_sortByKey rowValue (rowKey exactFloat 0) rows
  rw [hsort, hsort]
  have hsorted : ∀ rows : List CellRow, (sortByKey (rowKey exactFloat 0) rows).Pairwise fun a b =>
      rowKey exactFloat 0 a ≤ rowKey exactFloat 0 b := fun rows => sortByKey_sorted _ _
  refine List.Perm.eq_of_pairwise ?_ (hsorted _) (hsorted _)
    ((sortByKey_perm _ _).trans (h.trans (sortByKey_perm _ _).symm))
  intro a b ha hb hab hba
  -- two rows of values with one signature and one key are one row
  have hvalue : ∀ row ∈ rows.map rowValue, rowValue row = row ∧ signature row = sig := by
    intro row hrow
    obtain ⟨raw, hraw, rfl⟩ := List.mem_map.mp hrow
    refine ⟨?_, (signature_rowValue raw).trans (hsig raw hraw)⟩
    rw [rowValue, rowValue, List.map_map]
    exact List.map_congr_left fun c _ => by cases c <;> rfl
  have ha := hvalue a ((sortByKey_perm _ _).mem_iff.mp ha)
  have hb := hvalue b (h.mem_iff.mpr ((sortByKey_perm _ _).mem_iff.mp hb))
  rw [← ha.1, ← hb.1]
  exact rowValue_eq_of_key (ha.2.trans hb.2.symm) (le_antisymm hab hba)

/-- **The multiset test is exact** here: the same rows, as values. -/
theorem multisetsEqual_zero_iff {expected actual : List CellRow} :
    multisetsEqual exactFloat 0 expected actual = true ↔ (actual.map rowValue).Perm (expected.map rowValue) := by
  constructor
  · intro h
    obtain ⟨pairs, hleft, hright, hagree⟩ := sameRows_of_multisetsEqual h
    refine ((hright.map rowValue).symm.trans ?_).trans (hleft.map rowValue)
    rw [List.map_map, List.map_map]
    exact List.Perm.of_eq (List.map_congr_left fun x hx => (rowsEqual_zero_iff.mp (hagree x hx)).symm)
  · intro h
    refine multisetsEqual_iff.mpr fun sig => ?_
    have hgroup : ∀ rows : List CellRow, (group sig rows).map rowValue =
        (rows.map rowValue).filter fun row => signature row = sig := by
      intro rows
      rw [List.filter_map, group]
      congr 1
      exact List.filter_congr fun row _ => by rw [Function.comp_apply, signature_rowValue]
    have hperm : ((group sig expected).map rowValue).Perm ((group sig actual).map rowValue) := by
      rw [hgroup, hgroup]
      exact h.symm.filter _
    refine ⟨by simpa using hperm.length_eq, ?_⟩
    have hsorted := sortByKey_rowValue_of_perm (fun row hrow => (mem_group.mp hrow).2) hperm
    rw [← List.forall₂_eq_eq_eq, List.forall₂_map_left_iff, List.forall₂_map_right_iff] at hsorted
    exact hsorted.imp fun a b hab => rowsEqual_zero_iff.mpr hab

/-! ## Ties -/

/-- The values of two rows at a position are the same. -/
def SameAt (k : ℕ) (a b : CellRow) : Prop := (rowValue a)[k]? = (rowValue b)[k]?

/-- **A rearrangement among ties**: the actual rows are the expected ones, each moved to a position whose
expected row has the same keys. -/
def PermutesTies (keys : List ℕ) (expected actual : List CellRow) : Prop :=
  ∃ (hlen : actual.length = expected.length) (σ : Equiv.Perm (Fin expected.length)),
    ∀ i, SameRow (actual.get (i.cast hlen.symm)) (expected.get (σ i)) ∧
      ∀ k ∈ keys, SameAt k (expected.get i) (expected.get (σ i))

/-- The keys of the two results agree position by position. -/
def KeysAgree (keys : List ℕ) (expected actual : List CellRow) : Prop :=
  List.Forall₂ (fun a b => ∀ k ∈ keys, SameAt k a b) expected actual

/-- **The two tests together**: the same rows, and the same keys at every position. -/
theorem permutesTies_iff {keys : List ℕ} {expected actual : List CellRow} :
    PermutesTies keys expected actual ↔
      (actual.map rowValue).Perm (expected.map rowValue) ∧ KeysAgree keys expected actual := by
  constructor
  · rintro ⟨hlen, σ, hσ⟩
    refine ⟨?_, ?_⟩
    · exact (perm_map_iff_exists_equiv rowValue).mpr
        ⟨(finCongr hlen).trans σ, fun i => (hσ (i.cast hlen)).1⟩
    · refine List.forall₂_iff_get.mpr ⟨hlen.symm, fun i hi hi' k hk => ?_⟩
      have hrow := (hσ ⟨i, hi⟩).1
      have hkey := (hσ ⟨i, hi⟩).2 k hk
      rw [SameAt] at hkey ⊢
      rw [hkey, ← hrow]
      rfl
  · rintro ⟨hperm, hkeys⟩
    have hlen : actual.length = expected.length := by simpa using hperm.length_eq
    obtain ⟨σ, hσ⟩ := (perm_map_iff_exists_equiv rowValue).mp hperm
    refine ⟨hlen, (finCongr hlen.symm).trans σ, fun i => ?_⟩
    have hrow : SameRow (actual.get (i.cast hlen.symm)) (expected.get (σ (i.cast hlen.symm))) := hσ _
    refine ⟨hrow, fun k hk => ?_⟩
    -- the keys of what stands at a position are those of what was expected there
    have hkey := (List.forall₂_iff_get.mp hkeys).2 i i.isLt (by omega) k hk
    rw [SameAt] at hkey ⊢
    rw [SameRow] at hrow
    exact hkey.trans (congrArg (fun row => row[k]?) hrow)

/-! ## The verdict -/

/-- `ComparisonOptions(tolerance=0.0)`. -/
def exactOptions : ComparisonOptions := { tolerance := 0 }

variable {expected actual : ResultFrame}

theorem agreeAt_iff {a b : CellRow} {k : ℕ} (ha : k < a.length) (hb : k < b.length) :
    agreeAt exactFloat exactOptions a b k = true ↔ SameAt k a b := by
  rw [agreeAt, SameAt, rowValue, rowValue, List.getElem?_map, List.getElem?_map, List.getElem?_eq_getElem ha,
    List.getElem?_eq_getElem hb, Option.map_some, Option.map_some, Option.some.injEq]
  exact cellsEqual_zero_iff

/-- **`compare_frames` accepts** an ordered result that passes every test. -/
theorem compareFrames_ordered_equal {float : ℤ → ℚ} {opts : ComparisonOptions}
    {orderKeys : Option (List (Fin expected.width))} :
    (compareFrames float opts expected actual true orderKeys).equal = true ↔
      expected.width = actual.width ∧ expected.cells.length = actual.cells.length ∧
        multisetsEqual float opts.tolerance expected.cells actual.cells = true ∧
        ∀ r ∈ expected.cells.zip actual.cells,
          positionsAgree float opts ((orderKeys.getD []).map Fin.val) r.1 r.2 = true := by
  unfold compareFrames
  by_cases hwidth : expected.width = actual.width
  · by_cases hlen : expected.cells.length = actual.cells.length
    · by_cases hequal : multisetsEqual float opts.tolerance expected.cells actual.cells = true
      · simp only [hwidth, hlen, hequal, ne_eq, not_true_eq_false, if_false, Bool.not_true, Bool.false_eq_true,
          true_and, Bool.true_and]
        rw [← List.all_eq_true]
        by_cases hempty : expected.cells = []
        · simp [hempty]
        · have hnonempty : expected.cells.isEmpty = false := List.isEmpty_eq_false_iff.mpr hempty
          rw [hnonempty, Bool.not_false, Bool.true_and]
          cases (expected.cells.zip actual.cells).all _ <;> simp
      · simp [hwidth, hlen, hequal]
    · simp [hwidth, hlen]
  · simp [hwidth]

theorem forall_zip_iff_forall₂ {R : CellRow → CellRow → Prop} {l l' : List CellRow} (hlen : l.length = l'.length) :
    (∀ r ∈ l.zip l', R r.1 r.2) ↔ List.Forall₂ R l l' := by
  rw [List.forall₂_iff_zip, and_iff_right hlen]
  exact ⟨fun h {_ _} hab => h _ hab, fun h r hr => h hr⟩

/-- With keys, the last test is that the keys agree. -/
theorem positionsAgree_keys_iff {keys : List ℕ} (hkeys : keys ≠ []) (hin : ∀ k ∈ keys, k < expected.width)
    (hwidth : expected.width = actual.width) (hlen : expected.cells.length = actual.cells.length) :
    (∀ r ∈ expected.cells.zip actual.cells,
      positionsAgree exactFloat exactOptions keys r.1 r.2 = true) ↔
      KeysAgree keys expected.cells actual.cells := by
  rw [KeysAgree, ← forall_zip_iff_forall₂ hlen]
  refine forall₂_congr fun r hr => ?_
  obtain ⟨hre, hra⟩ := List.of_mem_zip (show (r.1, r.2) ∈ expected.cells.zip actual.cells from hr)
  have he := length_of_mem_cells hre
  have ha := length_of_mem_cells hra
  rw [positionsAgree, if_neg hkeys, List.all_eq_true]
  refine forall₂_congr fun k hk => ?_
  have hlt := hin k hk
  exact agreeAt_iff (by omega) (by omega)

/-- **The ordered verdict**, exactly: results of one width whose rows moved among ties only, and without keys
results with the same sequence of rows. -/
theorem compareFrames_ordered_iff (expected actual : ResultFrame) :
    (∀ (k : Fin expected.width) (keys : List (Fin expected.width)),
      (compareFrames exactFloat exactOptions expected actual true (some (k :: keys))).equal = true ↔
        expected.width = actual.width ∧
          PermutesTies ((k :: keys).map Fin.val) expected.cells actual.cells) ∧
    ((compareFrames exactFloat exactOptions expected actual true none).equal = true ↔
      expected.width = actual.width ∧ List.Forall₂ SameRow expected.cells actual.cells) := by
  constructor
  · intro k keys
    rw [compareFrames_ordered_equal, permutesTies_iff]
    refine and_congr_right fun hwidth => ?_
    show _ ∧ multisetsEqual exactFloat 0 _ _ = true ∧ _ ↔ _
    rw [multisetsEqual_zero_iff]
    have hin : ∀ j ∈ (k :: keys).map Fin.val, j < expected.width := by
      intro j hj
      obtain ⟨i, -, rfl⟩ := List.mem_map.mp hj
      exact i.isLt
    constructor
    · rintro ⟨hlen, hperm, htest⟩
      exact ⟨hperm, (positionsAgree_keys_iff (by simp) hin hwidth hlen).mp htest⟩
    · rintro ⟨hperm, hagree⟩
      have hlen := hagree.length_eq
      exact ⟨hlen, hperm, (positionsAgree_keys_iff (by simp) hin hwidth hlen).mpr hagree⟩
  · rw [compareFrames_ordered_equal]
    refine and_congr_right fun _ => ?_
    show _ ∧ multisetsEqual exactFloat 0 _ _ = true ∧
      (∀ r ∈ expected.cells.zip actual.cells, rowsEqual exactFloat 0 r.1 r.2 = true) ↔ _
    simp only [rowsEqual_zero_iff, multisetsEqual_zero_iff]
    constructor
    · rintro ⟨hlen, -, htest⟩
      exact (forall_zip_iff_forall₂ hlen).mp htest
    · intro hsame
      refine ⟨hsame.length_eq, ?_, (forall_zip_iff_forall₂ hsame.length_eq).mpr hsame⟩
      have hvalues : expected.cells.map rowValue = actual.cells.map rowValue := by
        rw [← List.forall₂_eq_eq_eq, List.forall₂_map_left_iff, List.forall₂_map_right_iff]
        exact hsame
      rw [hvalues]

/-- **Two empty results of different widths** have no row out of place, and are told apart. -/
theorem emptyResults_told_apart :
    (compareFrames exactFloat exactOptions ⟨["a"], [], by decide⟩ ⟨["a", "b"], [], by decide⟩ true
      (some [⟨0, by decide⟩])).equal = false ∧
    PermutesTies [0] (ResultFrame.cells ⟨["a"], [], by decide⟩) (ResultFrame.cells ⟨["a", "b"], [], by decide⟩) :=
  ⟨by decide, rfl, Equiv.refl _, fun i => i.elim0⟩

end LocalSqlAgent
