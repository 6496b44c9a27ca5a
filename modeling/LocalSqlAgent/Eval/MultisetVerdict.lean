import LocalSqlAgent.Eval.Compare

/-! # When the sort finds the pairing

`_multisets_equal` and `multiset_contains` look for a pairing of rows that agree. The one sorts the rows of
a signature on rounded numbers and compares position by position, the other takes the first row left that
agrees; agreement within a tolerance is not transitive, so either may miss a pairing that is there.

* **`multisetsEqual_iff`**: a row by row agreement of every sorted group.
* **`multisetsEqual_exact_iff`**: the verdict is right exactly when a pairing, if there is one, can be
  had in the order of the sort.
* **`multisetContains_exact_iff`**: the same for containment, served first come first. -/

namespace LocalSqlAgent

open OrderedDict

variable {float : ℤ → ℚ} {tolerance : ℚ}

/-! ## Groups of one signature -/

/-- The rows of one signature. -/
def group (sig : List (Option Cell)) (rows : List CellRow) : List CellRow :=
  rows.filter fun row => signature row = sig

/-- A row's sort key. -/
def rowKey (float : ℤ → ℚ) (tolerance : ℚ) (row : CellRow) : List ℚ :=
  sortKey float (digitsFor tolerance) (numericPart row)

theorem mem_group {sig : List (Option Cell)} {rows : List CellRow} {row : CellRow} :
    row ∈ group sig rows ↔ row ∈ rows ∧ signature row = sig := by
  rw [group, List.mem_filter, decide_eq_true_iff]

/-- One row more in its group. -/
def addRow (groups : OrderedDict (List (Option Cell)) (List CellRow)) (row : CellRow) :
    OrderedDict (List (Option Cell)) (List CellRow) :=
  groups.assign (signature row) ((groups.lookup (signature row)).getD [] ++ [numericPart row])

theorem lookup_foldl_addRow (rows : List CellRow) (d : OrderedDict (List (Option Cell)) (List CellRow))
    (sig : List (Option Cell)) :
    ((rows.foldl addRow d).lookup sig).getD [] = (d.lookup sig).getD [] ++ (group sig rows).map numericPart := by
  induction rows generalizing d with
  | nil => simp [group]
  | cons row rows ih =>
    rw [List.foldl_cons, ih, addRow, group, group]
    by_cases h : signature row = sig
    · subst h
      rw [lookup_assign_self, List.filter_cons_of_pos (by simp), Option.getD_some, List.map_cons,
        List.append_assoc]
      rfl
    · rw [lookup_assign_of_ne _ _ (Ne.symm h), List.filter_cons_of_neg (by simp [h])]

theorem mem_foldl_addRow (rows : List CellRow) (d : OrderedDict (List (Option Cell)) (List CellRow))
    (sig : List (Option Cell)) : sig ∈ rows.foldl addRow d ↔ sig ∈ d ∨ ∃ row ∈ rows, sig = signature row :=
  foldl_iff_or addRow (fun d => sig ∈ d) (fun row => sig = signature row) (fun _ _ => mem_assign.trans or_comm) rows d

theorem mem_groupRows {rows : List CellRow} {sig : List (Option Cell)} :
    sig ∈ groupRows rows ↔ group sig rows ≠ [] := by
  have h := mem_foldl_addRow rows ∅ sig
  show sig ∈ rows.foldl addRow ∅ ↔ _
  rw [h, ← List.length_pos_iff, List.length_pos_iff_exists_mem]
  constructor
  · rintro (hempty | ⟨row, hrow, rfl⟩)
    · exact absurd hempty (AList.notMem_empty _)
    · exact ⟨row, mem_group.mpr ⟨hrow, rfl⟩⟩
  · rintro ⟨row, hrow⟩
    exact .inr ⟨row, (mem_group.mp hrow).1, (mem_group.mp hrow).2.symm⟩

/-- **A group under its signature** is the numeric parts of its rows. -/
theorem lookup_groupRows (rows : List CellRow) (sig : List (Option Cell)) :
    ((groupRows rows).lookup sig).getD [] = (group sig rows).map numericPart := by
  have h := lookup_foldl_addRow rows ∅ sig
  rw [AList.lookup_empty, Option.getD_none, List.nil_append] at h
  exact h

/-! ## Rows that agree -/

theorem cellsEqual_comm (a b : Cell) : cellsEqual float tolerance a b = cellsEqual float tolerance b a := by
  have hclose : ∀ x y : ℚ, closeNumbers tolerance x y = closeNumbers tolerance y x := fun x y => by
    rw [closeNumbers, closeNumbers, abs_sub_comm, max_comm |x| |y|, Bool.beq_comm]
  cases a <;> cases b <;> simp [cellsEqual, Cell.number?, hclose, Bool.beq_comm]

theorem rowsEqual_iff {a b : CellRow} :
    rowsEqual float tolerance a b = true ↔ List.Forall₂ (fun x y => cellsEqual float tolerance x y = true) a b := by
  rw [rowsEqual, Bool.and_eq_true, beq_iff_eq, List.all_eq_true, List.forall₂_iff_zip]
  exact and_congr_right' ⟨fun h {x y} hxy => h (x, y) hxy, fun h c hc => h hc⟩

theorem rowsEqual_comm (a b : CellRow) : rowsEqual float tolerance a b = rowsEqual float tolerance b a := by
  have hflip : ∀ a b : CellRow, rowsEqual float tolerance a b = true → rowsEqual float tolerance b a = true := by
    intro a b h
    rw [rowsEqual_iff] at h ⊢
    refine h.flip.imp fun x y hxy => ?_
    rw [cellsEqual_comm]
    exact hxy
  rw [Bool.eq_iff_iff]
  exact ⟨hflip a b, hflip b a⟩

/-- Cells that agree leave the same in a signature. -/
theorem signature_of_cellsEqual {a b : Cell} (h : cellsEqual float tolerance a b = true) :
    (if a.isNumeric then none else some a) = if b.isNumeric then none else some b := by
  cases a <;> cases b <;> simp_all [cellsEqual, Cell.number?, Cell.isNumeric]

theorem signature_of_rowsEqual {a b : CellRow} (h : rowsEqual float tolerance a b = true) :
    signature a = signature b := by
  rw [rowsEqual_iff] at h
  induction h with
  | nil => rfl
  | cons hab _ ih =>
    rw [signature, List.map_cons, signature_of_cellsEqual hab]
    exact congrArg _ ih

/-- **Rows of one signature agree** when their numbers do. -/
theorem rowsEqual_numericPart {a b : CellRow} (h : signature a = signature b) :
    rowsEqual float tolerance (numericPart a) (numericPart b) = rowsEqual float tolerance a b := by
  rw [Bool.eq_iff_iff, rowsEqual_iff, rowsEqual_iff]
  induction a generalizing b with
  | nil =>
    cases b with
    | nil => rfl
    | cons y b => cases h
  | cons x a ih =>
    cases b with
    | nil => cases h
    | cons y b =>
      obtain ⟨hxy, hrest⟩ := List.cons.inj h
      have ih := ih hrest
      dsimp only at hxy
      rw [numericPart, numericPart] at ih ⊢
      rw [List.forall₂_cons]
      by_cases hx : x.isNumeric = true
      · have hy : y.isNumeric = true := by
          by_contra hy
          rw [if_pos hx, if_neg hy] at hxy
          cases hxy
        rw [List.filter_cons_of_pos hx, List.filter_cons_of_pos hy, List.forall₂_cons, ih]
      · have hy : ¬ y.isNumeric = true := by
          intro hy
          rw [if_neg hx, if_pos hy] at hxy
          cases hxy
        rw [if_neg hx, if_neg hy] at hxy
        cases hxy
        rw [List.filter_cons_of_neg hx, List.filter_cons_of_neg hx, ih]
        refine (and_iff_right ?_).symm
        cases x <;> simp_all [cellsEqual, Cell.number?, Cell.isNumeric]

/-- Rows of one signature have as many numbers. -/
theorem length_numericPart {row : CellRow} :
    (numericPart row).length = (signature row).count none := by
  rw [numericPart, signature, List.count_eq_countP, List.countP_map, List.countP_eq_length_filter]
  congr 1
  refine List.filter_congr fun c _ => ?_
  by_cases hc : c.isNumeric = true <;> simp [hc]

/-- A group whose first row has no number has none in any row. -/
theorem numericPart_eq_nil_of_head {sig : List (Option Cell)} {rows : List CellRow}
    (h : ((group sig rows).map numericPart).head? = some []) : ∀ row, signature row = sig → numericPart row = [] := by
  intro row hrow
  obtain ⟨first, hfirst, hnil⟩ : ∃ first ∈ group sig rows, numericPart first = [] := by
    cases hgroup : group sig rows with
    | nil =>
      rw [hgroup] at h
      cases h
    | cons first rest =>
      rw [hgroup, List.map_cons, List.head?_cons, Option.some.injEq] at h
      exact ⟨first, List.mem_cons_self, h⟩
  rw [← List.length_eq_zero_iff] at hnil ⊢
  rw [length_numericPart] at hnil ⊢
  rw [hrow, ← (mem_group.mp hfirst).2, hnil]

/-- Rows of one signature without numbers agree. -/
theorem rowsEqual_of_numericPart_eq_nil {a b : CellRow} (h : signature a = signature b)
    (ha : numericPart a = []) (hb : numericPart b = []) : rowsEqual float tolerance a b = true := by
  rw [← rowsEqual_numericPart h, ha, hb]
  rfl

/-! ## Equal as multisets -/

/-- The rows of one signature agree position by position, once sorted. -/
def GroupAligned (float : ℤ → ℚ) (tolerance : ℚ) (expected actual : List CellRow) (sig : List (Option Cell)) :
    Prop :=
  (group sig expected).length = (group sig actual).length ∧
    List.Forall₂ (fun a b => rowsEqual float tolerance a b = true)
      (sortByKey (rowKey float tolerance) (group sig expected))
      (sortByKey (rowKey float tolerance) (group sig actual))

theorem mem_sortByKey_group {key : CellRow → List ℚ} {sig : List (Option Cell)} {rows : List CellRow}
    {row : CellRow} (h : row ∈ sortByKey key (group sig rows)) : signature row = sig :=
  (mem_group.mp ((sortByKey_perm _ _).mem_iff.mp h)).2

/-- Sorting the numeric parts is sorting the rows. -/
theorem sortByKey_numericPart (rows : List CellRow) :
    sortByKey (sortKey float (digitsFor tolerance)) (rows.map numericPart) =
      (sortByKey (rowKey float tolerance) rows).map numericPart :=
  (map_sortByKey numericPart (sortKey float (digitsFor tolerance)) rows).symm

/-- What the loop of `_multisets_equal` checks of one signature. -/
theorem groupAligned_iff {expected actual : List CellRow} {sig : List (Option Cell)} :
    GroupAligned float tolerance expected actual sig ↔
      ((group sig expected).map numericPart).length = ((group sig actual).map numericPart).length ∧
      (((group sig expected).map numericPart).head? = some [] ∨
        ((sortByKey (sortKey float (digitsFor tolerance)) ((group sig expected).map numericPart)).zip
          (sortByKey (sortKey float (digitsFor tolerance)) ((group sig actual).map numericPart))).all
            (fun v => rowsEqual float tolerance v.1 v.2) = true) := by
  rw [GroupAligned, List.length_map, List.length_map]
  refine and_congr_right fun hlen => ?_
  have hsorted : (sortByKey (rowKey float tolerance) (group sig expected)).length =
      (sortByKey (rowKey float tolerance) (group sig actual)).length := by
    rw [(sortByKey_perm _ _).length_eq, (sortByKey_perm _ _).length_eq, hlen]
  rw [sortByKey_numericPart, sortByKey_numericPart, List.all_eq_true]
  have hzip : (∀ v ∈ ((sortByKey (rowKey float tolerance) (group sig expected)).map numericPart).zip
      ((sortByKey (rowKey float tolerance) (group sig actual)).map numericPart),
        rowsEqual float tolerance v.1 v.2 = true) ↔
      List.Forall₂ (fun a b => rowsEqual float tolerance a b = true)
        (sortByKey (rowKey float tolerance) (group sig expected))
        (sortByKey (rowKey float tolerance) (group sig actual)) := by
    rw [forall₂_congr_of_mem (S := fun a b => rowsEqual float tolerance (numericPart a) (numericPart b) = true)
        fun a ha b hb => by
          rw [rowsEqual_numericPart ((mem_sortByKey_group ha).trans (mem_sortByKey_group hb).symm)],
      ← List.forall₂_map_right_iff (R := fun a b => rowsEqual float tolerance (numericPart a) b = true),
      ← List.forall₂_map_left_iff (R := fun a b => rowsEqual float tolerance a b = true), List.forall₂_iff_zip]
    refine ⟨fun h => ⟨by simpa using hsorted, fun hab => h _ hab⟩, fun h v hv => h.2 hv⟩
  rw [hzip]
  refine ⟨Or.inr, ?_⟩
  rintro (hhead | h)
  · have hnil := numericPart_eq_nil_of_head hhead
    refine List.forall₂_iff_zip.mpr ⟨hsorted, fun {a b} hab => ?_⟩
    have ha := mem_sortByKey_group (List.of_mem_zip hab).1
    have hb := mem_sortByKey_group (List.of_mem_zip hab).2
    exact rowsEqual_of_numericPart_eq_nil (ha.trans hb.symm) (hnil a ha) (hnil b hb)
  · exact h

/-- **`_multisets_equal` accepts** when every group, once sorted, agrees position by position. -/
theorem multisetsEqual_iff {expected actual : List CellRow} :
    multisetsEqual float tolerance expected actual = true ↔
      ∀ sig, GroupAligned float tolerance expected actual sig := by
  have hkeys : sameKeys (groupRows expected) (groupRows actual) = true ↔
      ∀ sig, group sig expected ≠ [] ↔ group sig actual ≠ [] := by
    simp only [sameKeys, Bool.and_eq_true, List.all_eq_true, decide_eq_true_iff, ← AList.mem_keys,
      mem_groupRows]
    exact forall_and.symm.trans (forall_congr' fun sig => Iff.intro (fun h => ⟨h.1, h.2⟩) fun h => ⟨h.1, h.2⟩)
  have hgroup : ∀ entry ∈ (groupRows expected).entries, entry.2 = (group entry.1 expected).map numericPart := by
    intro entry hentry
    have hlookup : (groupRows expected).lookup entry.1 = some entry.2 := AList.mem_lookup_iff.mpr hentry
    rw [← lookup_groupRows, hlookup, Option.getD_some]
  unfold multisetsEqual
  rw [Bool.and_eq_true, hkeys, List.all_eq_true]
  constructor
  · rintro ⟨hsame, hall⟩ sig
    by_cases hempty : group sig expected = []
    · have hactual : group sig actual = [] := by
        by_contra hne
        exact (hsame sig).mpr hne hempty
      rw [GroupAligned, hempty, hactual]
      exact ⟨rfl, List.Forall₂.nil⟩
    · obtain ⟨vectors, hvectors⟩ := Option.isSome_iff_exists.mp (AList.lookup_isSome.mpr (mem_groupRows.mpr hempty))
      have hmem := AList.mem_lookup_iff.mp hvectors
      have hcheck := hall _ hmem
      rw [hgroup _ hmem, lookup_groupRows] at hcheck
      simp only [Bool.and_eq_true, Bool.or_eq_true, beq_iff_eq] at hcheck
      exact groupAligned_iff.mpr hcheck
  · intro haligned
    refine ⟨fun sig => ?_, fun entry hentry => ?_⟩
    · rw [← List.length_pos_iff, ← List.length_pos_iff, (haligned sig).1]
    · rw [hgroup _ hentry, lookup_groupRows]
      simp only [Bool.and_eq_true, Bool.or_eq_true, beq_iff_eq]
      exact groupAligned_iff.mp (haligned entry.1)

/-- Two rows with their positions agree. -/
def PlacedAgree (float : ℤ → ℚ) (tolerance : ℚ) (x y : CellRow × ℕ) : Prop :=
  rowsEqual float tolerance x.1 y.1 = true

/-- The rows of one signature can be paired **in the order of the sort**: by rounded numbers, then by
position. -/
def RankedPairing (float : ℤ → ℚ) (tolerance : ℚ) (expected actual : List CellRow) (sig : List (Option Cell)) :
    Prop :=
  ∃ pairs, PairsUp (PlacedAgree float tolerance) (group sig expected).zipIdx (group sig actual).zipIdx pairs ∧
    KeepsRank (rank (rowKey float tolerance)) (rank (rowKey float tolerance)) pairs

/-- **The rows of the two lists agree, one to one.** -/
def SameRows (float : ℤ → ℚ) (tolerance : ℚ) (expected actual : List CellRow) : Prop :=
  OneToOne (fun a b => rowsEqual float tolerance a b = true) expected actual

theorem groupAligned_iff_ranked {expected actual : List CellRow} {sig : List (Option Cell)} :
    GroupAligned float tolerance expected actual sig ↔
      (group sig expected).length = (group sig actual).length ∧ RankedPairing float tolerance expected actual sig :=
  and_congr_right fun hlen => forall₂_sortByKey_iff hlen

theorem sameRows_iff_groups {expected actual : List CellRow} :
    SameRows float tolerance expected actual ↔
      ∀ sig, OneToOne (fun a b => rowsEqual float tolerance a b = true) (group sig expected) (group sig actual) :=
  oneToOne_iff_groups fun _ _ => signature_of_rowsEqual

theorem length_group_of_sameRows {expected actual : List CellRow} (h : SameRows float tolerance expected actual)
    (sig : List (Option Cell)) : (group sig expected).length = (group sig actual).length :=
  (oneToOne_iff.mp (sameRows_iff_groups.mp h sig)).1

/-- What it accepts is the same multiset. -/
theorem sameRows_of_multisetsEqual {expected actual : List CellRow}
    (h : multisetsEqual float tolerance expected actual = true) : SameRows float tolerance expected actual := by
  refine sameRows_iff_groups.mpr fun sig => ?_
  obtain ⟨hlen, hforall⟩ := multisetsEqual_iff.mp h sig
  refine oneToOne_iff.mpr ⟨hlen, ?_⟩
  exact ((oneToOne_iff.mp (oneToOne_of_forall₂ hforall)).2).perm (sortByKey_perm _ _) (sortByKey_perm _ _)

/-- Of the same multisets it accepts those that the sort lines up. -/
theorem multisetsEqual_iff_ranked {expected actual : List CellRow} (h : SameRows float tolerance expected actual) :
    multisetsEqual float tolerance expected actual = true ↔
      ∀ sig, RankedPairing float tolerance expected actual sig := by
  rw [multisetsEqual_iff]
  exact forall_congr' fun sig => groupAligned_iff_ranked.trans (and_iff_right (length_group_of_sameRows h sig))

/-- **The verdict on multisets**: it is true exactly for the rows that can be paired one to one, if and only
if rows that can be paired at all can be paired in the order of the sort. -/
theorem multisetsEqual_exact_iff {expected actual : List CellRow} :
    (multisetsEqual float tolerance expected actual = true ↔ SameRows float tolerance expected actual) ↔
      (SameRows float tolerance expected actual → ∀ sig, RankedPairing float tolerance expected actual sig) := by
  constructor
  · intro hexact hsame
    exact (multisetsEqual_iff_ranked hsame).mp (hexact.mpr hsame)
  · exact fun hranked => ⟨sameRows_of_multisetsEqual, fun hsame =>
      (multisetsEqual_iff_ranked hsame).mpr (hranked hsame)⟩

/-- **Noise across a rounding boundary, and a reordering of large integers**: rows that agree one to one
and are told apart. -/
theorem multisetsEqual_misses_pairings :
    (∃ expected actual : List CellRow, expected = [[.num (4 / 10000000), .num 10], [.num (6 / 10000000), .num 5]] ∧
      actual = [[.num (4 / 10000000), .num 5], [.num (6 / 10000000), .num 10]] ∧
      SameRows float53 (1 / 1000000) expected actual ∧
      multisetsEqual float53 (1 / 1000000) expected actual = false) ∧
    ∃ rows : List CellRow, rows = [[.int 9007199254740992], [.int 9007199254740993]] ∧
      SameRows float53 (1 / 1000000) rows rows.reverse ∧
      multisetsEqual float53 (1 / 1000000) rows rows.reverse = false := by
  refine ⟨⟨_, _, rfl, rfl, ⟨[([.num (4 / 10000000), .num 10], [.num (6 / 10000000), .num 10]),
    ([.num (6 / 10000000), .num 5], [.num (4 / 10000000), .num 5])], ?_, ?_, ?_⟩, by decide +kernel⟩,
    _, rfl, ⟨[([.int 9007199254740992], [.int 9007199254740992]),
      ([.int 9007199254740993], [.int 9007199254740993])], ?_, ?_, ?_⟩, by decide +kernel⟩
  · exact List.Perm.refl _
  · exact List.Perm.swap _ _ _
  · decide +kernel
  · exact List.Perm.refl _
  · exact List.Perm.swap _ _ _
  · decide

/-! ## Contained as multisets -/

/-- The rows of one signature can be served **first come first**, in the order of the sort. -/
def ServedPairing (float : ℤ → ℚ) (tolerance : ℚ) (smaller larger : List CellRow) (sig : List (Option Cell)) :
    Prop :=
  ∃ pairs, PairsUp (PlacedAgree float tolerance) (group sig smaller).zipIdx (group sig larger).zipIdx pairs ∧
    FirstServed (PlacedAgree float tolerance) (rank (rowKey float tolerance)) (rank (rowKey float tolerance))
      (group sig larger).zipIdx pairs

/-- **Every row of the one list has an agreeing row of its own in the other.** -/
def RowsWithin (float : ℤ → ℚ) (tolerance : ℚ) (smaller larger : List CellRow) : Prop :=
  Pairable (fun a b => rowsEqual float tolerance a b = true) smaller larger

/-- What the loop of `multiset_contains` finds for one signature. -/
def GroupServed (float : ℤ → ℚ) (tolerance : ℚ) (smaller larger : List CellRow) (sig : List (Option Cell)) : Bool :=
  takeEach (rowsEqual float tolerance) (sortByKey (rowKey float tolerance) (group sig smaller))
    (sortByKey (rowKey float tolerance) (group sig larger))

theorem groupServed_iff {smaller larger : List CellRow} {sig : List (Option Cell)} :
    GroupServed float tolerance smaller larger sig = true ↔ ServedPairing float tolerance smaller larger sig :=
  takeEach_sortByKey_iff

/-- What the loop of `multiset_contains` checks of one signature. -/
theorem groupServed_eq {smaller larger : List CellRow} {sig : List (Option Cell)} :
    GroupServed float tolerance smaller larger sig = true ↔
      ((group sig smaller).map numericPart).length ≤ ((group sig larger).map numericPart).length ∧
      (((group sig smaller).map numericPart).head? = some [] ∨
        takeEach (rowsEqual float tolerance)
          (sortByKey (sortKey float (digitsFor tolerance)) ((group sig smaller).map numericPart))
          (sortByKey (sortKey float (digitsFor tolerance)) ((group sig larger).map numericPart)) = true) := by
  have hserved : takeEach (rowsEqual float tolerance)
      (sortByKey (sortKey float (digitsFor tolerance)) ((group sig smaller).map numericPart))
      (sortByKey (sortKey float (digitsFor tolerance)) ((group sig larger).map numericPart)) =
        GroupServed float tolerance smaller larger sig := by
    rw [sortByKey_numericPart, sortByKey_numericPart, takeEach_map, GroupServed]
    exact takeEach_congr fun a ha b hb =>
      rowsEqual_numericPart ((mem_sortByKey_group ha).trans (mem_sortByKey_group hb).symm)
  have hlengths : ∀ rows : List CellRow,
      (sortByKey (rowKey float tolerance) (group sig rows)).length = (group sig rows).length :=
    fun rows => (sortByKey_perm _ _).length_eq
  rw [hserved, List.length_map, List.length_map]
  constructor
  · intro h
    have hlen := length_le_of_takeEach h
    rw [hlengths, hlengths] at hlen
    exact ⟨hlen, .inr h⟩
  · rintro ⟨hlen, hhead | h⟩
    · have hnil := numericPart_eq_nil_of_head hhead
      refine takeEach_of_forall (fun a ha b hb => ?_) (by rw [hlengths, hlengths]; exact hlen)
      have ha := mem_sortByKey_group ha
      have hb := mem_sortByKey_group hb
      exact rowsEqual_of_numericPart_eq_nil (ha.trans hb.symm) (hnil a ha) (hnil b hb)
    · exact h

theorem length_of_mem_cells {f : ResultFrame} {row : CellRow} (h : row ∈ f.cells) : row.length = f.width := by
  obtain ⟨raw, hraw, rfl⟩ := List.mem_map.mp h
  rw [List.length_map, f.row_length raw hraw]
  rfl

variable {opts : ComparisonOptions} {larger smaller : ResultFrame}

/-- **`multiset_contains` accepts**, within the row limit, when every signature is served. -/
theorem multisetContains_iff (hlimit : larger.cells.length ≤ containmentRowLimit) :
    multisetContains float opts larger smaller = true ↔
      larger.width = smaller.width ∧ smaller.cells.length ≤ larger.cells.length ∧
        ∀ sig, GroupServed float opts.tolerance smaller.cells larger.cells sig = true := by
  have hgroup : ∀ entry ∈ (groupRows smaller.cells).entries,
      entry.2 = (group entry.1 smaller.cells).map numericPart := by
    intro entry hentry
    have hlookup : (groupRows smaller.cells).lookup entry.1 = some entry.2 := AList.mem_lookup_iff.mpr hentry
    rw [← lookup_groupRows, hlookup, Option.getD_some]
  unfold multisetContains
  simp only [Bool.and_eq_true, beq_iff_eq, decide_eq_true_iff, List.all_eq_true, and_assoc]
  refine and_congr_right fun _ => and_congr_right fun _ => ?_
  rw [and_iff_right hlimit]
  constructor
  · intro hall sig
    by_cases hempty : group sig smaller.cells = []
    · rw [GroupServed, hempty]
      rfl
    · obtain ⟨vectors, hvectors⟩ := Option.isSome_iff_exists.mp (AList.lookup_isSome.mpr (mem_groupRows.mpr hempty))
      have hmem := AList.mem_lookup_iff.mp hvectors
      have hcheck := hall _ hmem
      have hlarger := lookup_groupRows larger.cells sig
      rw [hgroup _ hmem] at hcheck
      cases hlookup : (groupRows larger.cells).lookup sig with
      | none =>
        rw [hlookup] at hcheck
        cases hcheck
      | some vectorsBig =>
        rw [hlookup, Option.getD_some] at hlarger
        rw [hlookup, hlarger] at hcheck
        simp only [Bool.and_eq_true, Bool.or_eq_true, beq_iff_eq, decide_eq_true_iff] at hcheck
        exact groupServed_eq.mpr hcheck
  · intro hserved entry hentry
    have hserved := groupServed_eq.mp (hserved entry.1)
    have hlarger := lookup_groupRows larger.cells entry.1
    have hne : group entry.1 smaller.cells ≠ [] :=
      mem_groupRows.mp (AList.mem_keys.mpr (List.mem_map.mpr ⟨entry, hentry, rfl⟩))
    rw [hgroup _ hentry]
    cases hlookup : (groupRows larger.cells).lookup entry.1 with
    | none =>
      rw [hlookup, Option.getD_none] at hlarger
      rw [← hlarger, List.length_map] at hserved
      exact absurd (List.length_eq_zero_iff.mp (Nat.le_zero.mp hserved.1)) hne
    | some vectorsBig =>
      rw [hlookup, Option.getD_some] at hlarger
      simp only [Bool.and_eq_true, Bool.or_eq_true, beq_iff_eq, decide_eq_true_iff]
      rw [hlarger]
      exact hserved

theorem rowsWithin_iff_groups {rows rows' : List CellRow} :
    RowsWithin float tolerance rows rows' ↔
      ∀ sig, Pairable (fun a b => rowsEqual float tolerance a b = true) (group sig rows) (group sig rows') :=
  pairable_iff_groups fun _ _ => signature_of_rowsEqual

/-- What it finds is there. -/
theorem rowsWithin_of_served {rows rows' : List CellRow}
    (h : ∀ sig, GroupServed float tolerance rows rows' sig = true) : RowsWithin float tolerance rows rows' :=
  rowsWithin_iff_groups.mpr fun sig =>
    (pairable_of_takeEach (h sig)).perm (sortByKey_perm _ _) (sortByKey_perm _ _)

theorem GroupAligned.served {rows rows' : List CellRow} {sig : List (Option Cell)}
    (h : GroupAligned float tolerance rows rows' sig) : GroupServed float tolerance rows rows' sig = true :=
  takeEach_of_forall₂ h.2

theorem multisetsEqual_comm (rows rows' : List CellRow) :
    multisetsEqual float tolerance rows rows' = multisetsEqual float tolerance rows' rows := by
  have hflip : ∀ rows rows' : List CellRow, multisetsEqual float tolerance rows rows' = true →
      multisetsEqual float tolerance rows' rows = true := by
    intro rows rows' h
    rw [multisetsEqual_iff] at h ⊢
    refine fun sig => ⟨(h sig).1.symm, (h sig).2.flip.imp fun a b hab => ?_⟩
    rw [rowsEqual_comm]
    exact hab
  rw [Bool.eq_iff_iff]
  exact ⟨hflip _ _, hflip _ _⟩

/-- **What is claimed of `multiset_contains`**: it is true exactly when the smaller list can be paired into
the larger, and on lists of one length it says what `multiset_equal` says. -/
structure ContainmentExact (float : ℤ → ℚ) (opts : ComparisonOptions) (larger smaller : ResultFrame) : Prop where
  contains : multisetContains float opts larger smaller = true ↔
    RowsWithin float opts.tolerance smaller.cells larger.cells
  equal : smaller.cells.length = larger.cells.length →
    multisetContains float opts larger smaller = multisetEqual float opts larger smaller

/-- **Rows that can be paired can be paired the way the code looks for them**: in the order of the sort on
lists of one length, first come first served on others. -/
structure PairedInOrder (float : ℤ → ℚ) (opts : ComparisonOptions) (larger smaller : ResultFrame) : Prop where
  /-- An empty result with other columns is not contained. -/
  width : larger.width ≠ smaller.width → smaller.cells ≠ []
  ranked : larger.width = smaller.width → smaller.cells.length = larger.cells.length →
    RowsWithin float opts.tolerance smaller.cells larger.cells →
      ∀ sig, RankedPairing float opts.tolerance smaller.cells larger.cells sig
  served : larger.width = smaller.width → smaller.cells.length < larger.cells.length →
    RowsWithin float opts.tolerance smaller.cells larger.cells →
      ∀ sig, ServedPairing float opts.tolerance smaller.cells larger.cells sig

/-- Results of different widths have no rows that agree. -/
theorem rowsWithin_iff_of_width_ne (h : larger.width ≠ smaller.width) :
    RowsWithin float tolerance smaller.cells larger.cells ↔ smaller.cells = [] := by
  constructor
  · rintro ⟨pairs, hleft, hright, hagree⟩
    cases pairs with
    | nil => exact List.nil_perm.mp hleft
    | cons x pairs =>
      have hsmall := length_of_mem_cells (hleft.mem_iff.mp List.mem_cons_self)
      have hlarge := length_of_mem_cells (hright.subset List.mem_cons_self)
      have hlen := (rowsEqual_iff.mp (hagree x List.mem_cons_self)).length_eq
      exact absurd (hlarge.symm.trans (hlen.symm.trans hsmall)) h
  · intro hempty
    rw [hempty]
    exact ⟨[], List.Perm.refl _, List.nil_subperm, fun x hx => absurd hx List.not_mem_nil⟩

theorem multisetEqual_eq_of_length (hwidth : larger.width = smaller.width)
    (hlen : smaller.cells.length = larger.cells.length) :
    multisetEqual float opts larger smaller = multisetsEqual float opts.tolerance smaller.cells larger.cells := by
  rw [multisetEqual, beq_iff_eq.mpr hwidth, beq_iff_eq.mpr hlen.symm, multisetsEqual_comm]
  rfl

/-- On lists of one length. -/
theorem containmentExact_of_length_eq (hlimit : larger.cells.length ≤ containmentRowLimit)
    (hwidth : larger.width = smaller.width) (hlen : smaller.cells.length = larger.cells.length) :
    ContainmentExact float opts larger smaller ↔
      (RowsWithin float opts.tolerance smaller.cells larger.cells →
        ∀ sig, RankedPairing float opts.tolerance smaller.cells larger.cells sig) := by
  have hcontains : multisetContains float opts larger smaller = true ↔
      ∀ sig, GroupServed float opts.tolerance smaller.cells larger.cells sig = true := by
    rw [multisetContains_iff hlimit, and_iff_right hwidth, and_iff_right hlen.le]
  have hequal := @multisetEqual_eq_of_length float opts larger smaller hwidth hlen
  have hsame : RowsWithin float opts.tolerance smaller.cells larger.cells ↔
      SameRows float opts.tolerance smaller.cells larger.cells :=
    (and_iff_right hlen).symm.trans oneToOne_iff.symm
  constructor
  · intro hexact hwithin
    have hfound := hexact.contains.mpr hwithin
    rw [hexact.equal hlen, hequal] at hfound
    exact (multisetsEqual_iff_ranked (hsame.mp hwithin)).mp hfound
  · intro hranked
    have hfound : RowsWithin float opts.tolerance smaller.cells larger.cells →
        multisetsEqual float opts.tolerance smaller.cells larger.cells = true :=
      fun hwithin => (multisetsEqual_iff_ranked (hsame.mp hwithin)).mpr (hranked hwithin)
    have hserved : multisetsEqual float opts.tolerance smaller.cells larger.cells = true →
        multisetContains float opts larger smaller = true :=
      fun h => hcontains.mpr fun sig => (multisetsEqual_iff.mp h sig).served
    refine ⟨⟨fun h => rowsWithin_of_served (hcontains.mp h), fun h => hserved (hfound h)⟩, fun _ => ?_⟩
    rw [hequal, Bool.eq_iff_iff]
    exact ⟨fun h => hfound (rowsWithin_of_served (hcontains.mp h)), hserved⟩

/-- On a shorter list. -/
theorem containmentExact_of_length_lt (hlimit : larger.cells.length ≤ containmentRowLimit)
    (hwidth : larger.width = smaller.width) (hlen : smaller.cells.length < larger.cells.length) :
    ContainmentExact float opts larger smaller ↔
      (RowsWithin float opts.tolerance smaller.cells larger.cells →
        ∀ sig, ServedPairing float opts.tolerance smaller.cells larger.cells sig) := by
  have hcontains : multisetContains float opts larger smaller = true ↔
      ∀ sig, GroupServed float opts.tolerance smaller.cells larger.cells sig = true := by
    rw [multisetContains_iff hlimit, and_iff_right hwidth, and_iff_right hlen.le]
  simp only [groupServed_iff] at hcontains
  constructor
  · exact fun hexact hwithin => hcontains.mp (hexact.contains.mpr hwithin)
  · intro hserved
    refine ⟨⟨fun h => ?_, fun h => hcontains.mpr (hserved h)⟩, fun h => absurd h hlen.ne⟩
    exact rowsWithin_of_served fun sig => groupServed_iff.mpr (hcontains.mp h sig)

/-- **The verdict on containment**: within the row limit it is the one claimed, and that of `multiset_equal`
on lists of one length, if and only if rows that can be paired can be paired the way the code looks for
them. -/
theorem multisetContains_exact_iff (hlimit : larger.cells.length ≤ containmentRowLimit) :
    ContainmentExact float opts larger smaller ↔ PairedInOrder float opts larger smaller := by
  by_cases hwidth : larger.width = smaller.width
  · rcases lt_trichotomy smaller.cells.length larger.cells.length with hlen | hlen | hlen
    · rw [containmentExact_of_length_lt hlimit hwidth hlen]
      exact ⟨fun h => ⟨fun hne => absurd hwidth hne, fun _ heq => absurd heq hlen.ne, fun _ _ => h⟩,
        fun h => h.served hwidth hlen⟩
    · rw [containmentExact_of_length_eq hlimit hwidth hlen]
      exact ⟨fun h => ⟨fun hne => absurd hwidth hne, fun _ _ => h, fun _ hlt => absurd hlen hlt.ne⟩,
        fun h => h.ranked hwidth hlen⟩
    · -- too many rows to be contained
      have hnot : ¬ RowsWithin float opts.tolerance smaller.cells larger.cells :=
        fun h => absurd h.length_le (not_le.mpr hlen)
      have hrejected : ¬ multisetContains float opts larger smaller = true :=
        fun h => absurd ((multisetContains_iff hlimit).mp h).2.1 (not_le.mpr hlen)
      exact iff_of_true ⟨iff_of_false hrejected hnot, fun heq => absurd heq.symm hlen.ne⟩
        ⟨fun hne => absurd hwidth hne, fun _ heq => absurd heq.symm hlen.ne, fun _ hlt => absurd hlt hlen.asymm⟩
  · have hrejected : multisetContains float opts larger smaller = false :=
      Bool.eq_false_iff.mpr fun h => hwidth ((multisetContains_iff hlimit).mp h).1
    have hequal : multisetEqual float opts larger smaller = false := by
      rw [multisetEqual, beq_eq_false_iff_ne.mpr hwidth]
      rfl
    constructor
    · refine fun h => ⟨fun _ hempty => ?_, fun heq => absurd heq hwidth, fun heq => absurd heq hwidth⟩
      have hfound := h.contains.mpr ((rowsWithin_iff_of_width_ne hwidth).mpr hempty)
      rw [hrejected] at hfound
      cases hfound
    · refine fun h => ⟨?_, fun _ => by rw [hrejected, hequal]⟩
      rw [hrejected, rowsWithin_iff_of_width_ne hwidth]
      exact iff_of_false Bool.false_ne_true (h.width hwidth)

/-- Two points. -/
def twoPoints : ResultFrame :=
  ⟨["x", "y"], [[.float 0, .float 0], [.float (1 / 1000000), .float (-1 / 1000000)]], by decide⟩

/-- Three points: the first is near both of the two, the second near the first of them. -/
def threePoints : ResultFrame :=
  ⟨["x", "y"], [[.float (1 / 1000000), .float (-1 / 1000000)], [.float (1 / 1000000), .float (1 / 1000000)],
    [.float 5, .float 5]], by decide⟩

/-- Two large integers that are one double. -/
def largeIds : ResultFrame := ⟨["id"], [[.int 9007199254740992], [.int 9007199254740993]], by decide⟩

/-- The same two in the other order. -/
def largeIdsReversed : ResultFrame := ⟨["id"], largeIds.rows.reverse, by decide⟩

/-- **The first row takes the only partner of the second**, and the two functions part on a reordering of
large integers. -/
theorem multisetContains_misses_pairings :
    RowsWithin float53 (1 / 1000000) twoPoints.cells threePoints.cells ∧
    multisetContains float53 {} threePoints twoPoints = false ∧
    multisetContains float53 {} largeIds largeIdsReversed = true ∧
    multisetEqual float53 {} largeIds largeIdsReversed = false := by
  refine ⟨⟨[([.num 0, .num 0], [.num (1 / 1000000), .num (1 / 1000000)]),
    ([.num (1 / 1000000), .num (-1 / 1000000)], [.num (1 / 1000000), .num (-1 / 1000000)])], ?_, ?_, ?_⟩,
    by decide +kernel, by decide +kernel, by decide +kernel⟩
  · exact List.Perm.refl _
  · exact (List.Perm.swap _ _ _).subperm.trans (List.sublist_append_left _ [[Cell.num 5, Cell.num 5]]).subperm
  · decide +kernel

theorem multisetContains_exact_points :
    ContainmentExact float53 {} threePoints twoPoints ↔ PairedInOrder float53 {} threePoints twoPoints :=
  multisetContains_exact_iff (by decide)

end LocalSqlAgent
