import LocalSqlAgent.Database.TableHints

/-! # What the hint rewriter guarantees

Which references read a stored table is decided by T-SQL's scoping (`ReadsTable`): a CTE is visible
to itself, to the later CTEs of its `WITH` and to the statement. The rewriter looks at every CTE of
the statements around a reference, the later ones included, and takes a table of an earlier CTE's
body for a later CTE of that name.

* **`EndsAt`**: where a reference ends in the text.
* **`HintedExactly`**: one hint behind every unhinted table reference, and no other change.
* **`addNolockHints_exact_iff`**: the rewriter's output is the text or is hinted exactly, and is
  stable, if and only if no rewritten statement has such a reference. -/

namespace LocalSqlAgent

variable {C : CaseMaps} {parse : TsqlParse} {sql : List Char}

/-! ## References to stored tables -/

/-- The CTEs in scope below a list of frames, `upTo` of them where a `WITH` has just been left. -/
def tsqlCtesBelow : Option ℕ → List (Frame NodeLabel Arg) → List Expr
  | _, [] => []
  | upTo, f :: above =>
    (upTo.map fun n => (ownCtes f.parent).take n).getD (ownCtes f.parent) ++
      tsqlCtesBelow
        (match f.parent.cls with
        | .withClause _ => some ((f.before.filter (·.1 = .expressions)).length + 1)
        | _ => none) above

/-- **The CTEs T-SQL resolves a reference against**: from inside a CTE the earlier ones of its `WITH`
and the CTE itself, elsewhere all those of the statements around it. -/
def tsqlCtes (o : ExprOcc) : List Expr := tsqlCtesBelow none o.frames

/-- The name a reference is written with, its last part. -/
def writtenName (o : ExprOcc) : String := ((o.node.arg .this).map (·.name)).getD ""

/-- A reference is spelled like a stored table: a plain name, not a temporary table, a variable or a
catalogue view, and not the target of `SELECT ... INTO`. -/
structure StoredName (C : CaseMaps) (o : ExprOcc) : Prop where
  /-- The name is one identifier without a temporary-table mark. -/
  plain : ∃ n, o.node.arg .this = some n ∧ n.cls.identifier? ≠ none ∧
    n.arg (.other "temporary") = none ∧ n.arg (.other "global_") = none
  /-- No `#` and no `@` in front. -/
  unmarked : ¬ ((writtenName o).toList.head? = some '#' ∨ (writtenName o).toList.head? = some '@')
  /-- The reference is read. -/
  notTarget : isIntoTarget o = false
  /-- The schema is not the catalogue's. -/
  notSystem : inSystemSchema C o = false

/-- **A reference reads a stored table**: it is spelled like one and names no CTE in scope. -/
def ReadsTable (C : CaseMaps) (o : ExprOcc) : Prop :=
  StoredName C o ∧
    ¬ (isUnqualified o = true ∧ C.lower (writtenName o) ∈ aliasesOf C (tsqlCtes o))

/-- **A table reference is taken for a CTE**: its bare name is that of a CTE of a statement around
it, out of whose scope it stands. -/
def TakenForCte (C : CaseMaps) (o : ExprOcc) : Prop :=
  StoredName C o ∧ isUnqualified o = true ∧ C.lower (writtenName o) ∈ visibleCteNames C o ∧
    C.lower (writtenName o) ∉ aliasesOf C (tsqlCtes o)

theorem isPhysicalTable_iff {o : ExprOcc} :
    isPhysicalTable C o = true ↔ StoredName C o ∧
      ¬ (isUnqualified o = true ∧ C.lower (writtenName o) ∈ visibleCteNames C o) := by
  constructor
  · intro h
    unfold isPhysicalTable at h
    split at h
    · cases h
    · rename_i n hname
      have hwritten : writtenName o = n.name := by simp [writtenName, hname]
      split_ifs at h with hplain hflag hmark hinto hsystem hcte
      simp only [Bool.or_eq_true, not_or, Bool.not_eq_true, Option.isSome_eq_false_iff,
        Option.isNone_iff_eq_none] at hflag
      refine ⟨⟨⟨n, hname, ?_, hflag.1, hflag.2⟩, ?_, ?_, ?_⟩, ?_⟩
      · simpa using hplain
      · rwa [hwritten]
      · simpa using hinto
      · simpa using hsystem
      · rwa [hwritten]
  · rintro ⟨⟨⟨n, hname, hplain, htemp, hglobal⟩, hmark, hinto, hsystem⟩, hcte⟩
    have hwritten : writtenName o = n.name := by simp [writtenName, hname]
    rw [hwritten] at hmark hcte
    unfold isPhysicalTable
    rw [hname]
    simp [hplain, htemp, hglobal, hmark, hinto, hsystem, hcte]

/-- T-SQL's scope is part of what the rewriter looks at. -/
theorem tsqlCtesBelow_subset (upTo : Option ℕ) (n : Expr) (fs : List (Frame NodeLabel Arg)) :
    ∀ e ∈ tsqlCtesBelow upTo fs, e ∈ (Occ.mk n fs).ancestors.flatMap fun a => ownCtes a.node := by
  induction fs generalizing upTo n with
  | nil => simp [tsqlCtesBelow]
  | cons f above ih =>
    intro e he
    rw [Occ.ancestors_cons, List.flatMap_cons, List.mem_append]
    rw [tsqlCtesBelow, List.mem_append] at he
    rcases he with hhere | habove
    · left
      cases upTo with
      | none => exact hhere
      | some k => exact List.mem_of_mem_take hhere
    · exact Or.inr (ih _ f.parent e habove)

theorem visibleCteNames_of_tsqlCtes {o : ExprOcc} {name : String}
    (h : name ∈ aliasesOf C (tsqlCtes o)) : name ∈ visibleCteNames C o := by
  obtain ⟨e, he, hne, heq⟩ := mem_aliasesOf.mp h
  exact mem_aliasesOf.mpr ⟨e, tsqlCtesBelow_subset none o.node o.frames e he, hne, heq⟩

/-- **Where the two readings part**: a stored table is a physical one for the rewriter, or it is taken
for a CTE. -/
theorem readsTable_iff {o : ExprOcc} :
    ReadsTable C o ↔ isPhysicalTable C o = true ∨ TakenForCte C o := by
  rw [isPhysicalTable_iff]
  constructor
  · rintro ⟨hstored, hscope⟩
    by_cases htaken : isUnqualified o = true ∧ C.lower (writtenName o) ∈ visibleCteNames C o
    · exact Or.inr ⟨hstored, htaken.1, htaken.2, fun h => hscope ⟨htaken.1, h⟩⟩
    · exact Or.inl ⟨hstored, htaken⟩
  · rintro (⟨hstored, hcte⟩ | ⟨hstored, hbare, -, hscope⟩)
    · exact ⟨hstored, fun h => hcte ⟨h.1, visibleCteNames_of_tsqlCtes h.2⟩⟩
    · exact ⟨hstored, fun h => hscope h.2⟩

/-! ## Where a reference ends -/

/-- The identifiers a reference is written with: the parts of its name and its alias. -/
def ownIdentifiers (o : ExprOcc) : List ExprOcc :=
  nameParts o ++ ((argOcc .alias o).bind (argOcc .this)).toList

/-- An identifier stands in the text, its last character right before an offset. -/
def SpelledUpTo (sql : List Char) (st : ParsedStatement) (i : ExprOcc) (p : ℕ) : Prop :=
  ∃ name quoted start stop, i.node.cls.identifier? = some (name, quoted) ∧
    st.span i = some (start, stop) ∧ (start ≤ stop ∧ stop < sql.length) ∧
      spells ((sql.drop start).take (stop + 1 - start)) name quoted = true ∧ p = stop + 1

/-- **A reference ends at an offset**: its identifiers all stand in the text, and the last of them
ends there. -/
structure EndsAt (sql : List Char) (st : ParsedStatement) (o : ExprOcc) (p : ℕ) : Prop where
  /-- An identifier of the reference ends there. -/
  last : ∃ i ∈ ownIdentifiers o, SpelledUpTo sql st i p
  /-- None ends later. -/
  others : ∀ i ∈ ownIdentifiers o, ∃ q ≤ p, SpelledUpTo sql st i q

variable {st : ParsedStatement} {o : ExprOcc}

theorem SpelledUpTo.unique {i : ExprOcc} {p q : ℕ} (hp : SpelledUpTo sql st i p)
    (hq : SpelledUpTo sql st i q) : p = q := by
  obtain ⟨_, _, start, stop, -, hspan, -, -, rfl⟩ := hp
  obtain ⟨_, _, start', stop', -, hspan', -, -, rfl⟩ := hq
  rw [hspan] at hspan'
  cases hspan'
  rfl

/-- **A reference ends at one place.** -/
theorem EndsAt.unique {p q : ℕ} (hp : EndsAt sql st o p) (hq : EndsAt sql st o q) : p = q := by
  have hle : ∀ {a b : ℕ}, EndsAt sql st o a → EndsAt sql st o b → a ≤ b := by
    intro a b ha hb
    obtain ⟨i, hi, hia⟩ := ha.last
    obtain ⟨c, hcb, hic⟩ := hb.others i hi
    rwa [hia.unique hic]
  exact Nat.le_antisymm (hle hp hq) (hle hq hp)

/-- A reference ends inside the text. -/
theorem EndsAt.le_length {p : ℕ} (h : EndsAt sql st o p) : p ≤ sql.length := by
  obtain ⟨i, -, _, _, start, stop, -, -, ⟨-, hstop⟩, -, rfl⟩ := h.last
  exact hstop

theorem identifierEnd_ok_iff {ident : Option ExprOcc} {p : ℕ} :
    identifierEnd sql st ident = .ok p ↔ ∃ i, ident = some i ∧ SpelledUpTo sql st i p := by
  cases ident with
  | none => simp [identifierEnd]
  | some i =>
    cases hcls : i.node.cls.identifier? with
    | none => simp [identifierEnd, SpelledUpTo, hcls]
    | some parts =>
      obtain ⟨name, quoted⟩ := parts
      cases hspan : st.span i with
      | none => simp [identifierEnd, SpelledUpTo, hcls, hspan]
      | some range =>
        obtain ⟨start, stop⟩ := range
        simp only [identifierEnd, hcls, hspan, bind_ok_iff, refuseIf_ok_iff]
        constructor
        · rintro ⟨-, hrange, -, hspells, hp⟩
          cases hp
          exact ⟨i, rfl, name, quoted, start, stop, hcls, hspan, not_not.mp hrange,
            by simpa using hspells, rfl⟩
        · rintro ⟨_, hi, name', quoted', start', stop', hcls', hspan', hrange, hspells, rfl⟩
          cases hi
          rw [hcls] at hcls'
          rw [hspan] at hspan'
          cases hcls'
          cases hspan'
          exact ⟨(), not_not.mpr hrange, (), by simp [hspells], rfl⟩

theorem maxEnd_ok_iff {ends : List ℕ} {p : ℕ} :
    maxEnd ends = .ok p ↔ p ∈ ends ∧ ∀ e ∈ ends, e ≤ p := by
  rw [← List.max?_eq_some_iff]
  unfold maxEnd
  split
  · simp [*]
  · simp [*]

/-- The alias's end is that of the alias's identifier. -/
theorem aliasEnds_ok {ends : List ℕ} (h : aliasEnds sql st o = .ok ends) :
    List.Forall₂ (fun i p => SpelledUpTo sql st i p)
      ((argOcc .alias o).bind (argOcc .this)).toList ends := by
  unfold aliasEnds at h
  split at h
  · rename_i hnone
    cases h
    simp [hnone]
  · rename_i label hlabel
    obtain ⟨-, -, hrest⟩ := bind_ok_iff.mp h
    obtain ⟨stop, hstop, hends⟩ := bind_ok_iff.mp hrest
    cases hends
    obtain ⟨i, hi, hspelled⟩ := identifierEnd_ok_iff.mp hstop
    simp [hlabel, hi, hspelled]

/-- **The insertion point is where the reference ends.** -/
theorem endsAt_of_insertionPoint {p : ℕ} (h : insertionPoint sql st o = .ok p) :
    EndsAt sql st o p := by
  obtain ⟨-, -, h⟩ := bind_ok_iff.mp h
  obtain ⟨ends, hends, h⟩ := bind_ok_iff.mp h
  obtain ⟨labels, hlabels, h⟩ := bind_ok_iff.mp h
  have hparts : List.Forall₂ (fun i p => SpelledUpTo sql st i p) (nameParts o) ends := by
    refine (mapM_ok_iff.mp hends).imp fun i q hq => ?_
    obtain ⟨_, hi, hspelled⟩ := identifierEnd_ok_iff.mp hq
    cases hi
    exact hspelled
  have hown := List.rel_append hparts (aliasEnds_ok hlabels)
  obtain ⟨hmem, hmax⟩ := maxEnd_ok_iff.mp h
  refine ⟨exists_left_of_forall₂ hown p hmem, fun i hi => ?_⟩
  obtain ⟨q, hq, hspelled⟩ := exists_right_of_forall₂ hown i hi
  exact ⟨q, hmax q hq, hspelled⟩

/-! ## The property -/

/-- A table reference of a statement that reads a stored table and has no hint list. -/
structure UnhintedTable (C : CaseMaps) (st : ParsedStatement) (o : ExprOcc) : Prop where
  inTree : InTree st.tree o
  isTable : o.node.cls = .table
  reads : ReadsTable C o
  bare : hasHints o.node = false

/-- **A text is hinted exactly**: the output is the text cut in pieces with one hint between any two,
every unhinted table reference ends at a cut, and every cut is the end of one. -/
def HintedExactly (C : CaseMaps) (sql : List Char) (statements : List ParsedStatement)
    (out : List Char) : Prop :=
  ∃ pieces, pieces.flatten = sql ∧ nolockHint.intercalate pieces = out ∧
    (cutPoints pieces).Pairwise (· < ·) ∧
    (∀ st ∈ statements, ∀ o, UnhintedTable C st o →
      ∃ p ∈ cutPoints pieces, EndsAt sql st o p) ∧
    ∀ p ∈ cutPoints pieces, ∃ st ∈ statements, ∃ o, UnhintedTable C st o ∧ EndsAt sql st o p

/-- **What is expected of the rewriter** on a text: the text itself or the text hinted exactly, and
nothing more on a second run. -/
def HintsExact (C : CaseMaps) (parse : TsqlParse) (sql : List Char) : Prop :=
  (addNolockHints C parse sql = sql ∨ ∃ parsed, parse sql = some parsed ∧
    HintedExactly C sql parsed.reduceOption (addNolockHints C parse sql)) ∧
  addNolockHints C parse (addNolockHints C parse sql) = addNolockHints C parse sql

/-! ## The references found -/

variable {statements : List ParsedStatement} {refs : List HintRef}

theorem mem_physicalTables : o ∈ physicalTables C st ↔
    InTree st.tree o ∧ o.node.cls = .table ∧ isPhysicalTable C o = true := by
  simp [physicalTables, mem_preorder_iff]

/-- A physical table for the rewriter reads a stored table. -/
theorem unhintedTable_of_physical (ho : o ∈ physicalTables C st) (hbare : hasHints o.node = false) :
    UnhintedTable C st o := by
  obtain ⟨hin, htable, hphysical⟩ := mem_physicalTables.mp ho
  exact ⟨hin, htable, readsTable_iff.mpr (Or.inl hphysical), hbare⟩

/-- An unhinted reference is found at its end. -/
theorem referenceAt_unhinted {r : HintRef} (h : referenceAt sql st o = .ok r)
    (hbare : hasHints o.node = false) : ∃ p, r = ⟨o, some p⟩ ∧ EndsAt sql st o p := by
  unfold referenceAt at h
  rw [if_neg (by simp [hbare])] at h
  obtain ⟨p, hp, hr⟩ := bind_ok_iff.mp h
  cases hr
  exact ⟨p, rfl, endsAt_of_insertionPoint hp⟩

/-- A hinted reference gets no further hint. -/
theorem referenceAt_hinted {r : HintRef} (h : referenceAt sql st o = .ok r)
    (hhints : hasHints o.node = true) : r = ⟨o, none⟩ := by
  unfold referenceAt at h
  rw [if_pos hhints] at h
  cases h
  rfl

theorem mem_hintInsertions {p : ℕ} :
    p ∈ hintInsertions refs ↔ ∃ r ∈ refs, r.insertAt = some p := by
  rw [hintInsertions, List.mem_insertionSort, List.mem_dedup, List.mem_filterMap]

/-- No offset is inserted at twice, and the last comes first. -/
theorem hintInsertions_pairwise (refs : List HintRef) : (hintInsertions refs).Pairwise (· > ·) := by
  have hsorted : (hintInsertions refs).Pairwise (· ≥ ·) := List.pairwise_insertionSort _ _
  have hnodup : (hintInsertions refs).Nodup :=
    (List.perm_insertionSort _ _).nodup_iff.mpr (List.nodup_dedup _)
  exact (hsorted.and hnodup).imp fun h => lt_of_le_of_ne h.1 (Ne.symm h.2)

/-- **Every unhinted physical table has its offset.** -/
theorem exists_insertion (h : references C sql statements = .ok refs) (hst : st ∈ statements)
    (ho : o ∈ physicalTables C st) (hbare : hasHints o.node = false) :
    ∃ p ∈ hintInsertions refs, EndsAt sql st o p := by
  have hpair : (st, o) ∈ statements.flatMap fun st => (physicalTables C st).map fun o => (st, o) :=
    List.mem_flatMap.mpr ⟨st, hst, List.mem_map.mpr ⟨o, ho, rfl⟩⟩
  obtain ⟨r, hr, hat⟩ := exists_right_of_forall₂ (mapM_ok_iff.mp h) _ hpair
  obtain ⟨p, rfl, hends⟩ := referenceAt_unhinted hat hbare
  exact ⟨p, mem_hintInsertions.mpr ⟨_, hr, rfl⟩, hends⟩

/-- **Every offset is the end of an unhinted table reference.** -/
theorem unhintedTable_of_insertion (h : references C sql statements = .ok refs) {p : ℕ}
    (hp : p ∈ hintInsertions refs) :
    ∃ st ∈ statements, ∃ o, UnhintedTable C st o ∧ EndsAt sql st o p := by
  obtain ⟨r, hr, hat⟩ := mem_hintInsertions.mp hp
  obtain ⟨⟨st, o⟩, hpair, href⟩ := exists_left_of_forall₂ (mapM_ok_iff.mp h) r hr
  obtain ⟨st', hst, hmem⟩ := List.mem_flatMap.mp hpair
  obtain ⟨o', ho, heq⟩ := List.mem_map.mp hmem
  cases heq
  by_cases hbare : hasHints o.node = true
  · rw [referenceAt_hinted href hbare] at hat
    cases hat
  · rw [Bool.not_eq_true] at hbare
    obtain ⟨q, rfl, hends⟩ := referenceAt_unhinted href hbare
    cases hat
    exact ⟨st, hst, o, unhintedTable_of_physical ho hbare, hends⟩

/-! ## Rewritten statements -/

/-- **A text is rewritten**: it is parsed, its references are found, one of them takes a hint and the
result passes its check. -/
structure Rewritten (C : CaseMaps) (parse : TsqlParse) (sql : List Char)
    (statements : List ParsedStatement) (refs : List HintRef) : Prop where
  notBlank : strip sql ≠ []
  parsed : parseQueries parse sql = .ok statements
  found : references C sql statements = .ok refs
  inserted : hintInsertions refs ≠ []
  verified : verify C parse (withHints sql (hintInsertions refs)) refs = .ok ()

theorem Rewritten.output (h : Rewritten C parse sql statements refs) :
    addNolockHints C parse sql = withHints sql (hintInsertions refs) := by
  have hbody : hintedText C parse sql = .ok (withHints sql (hintInsertions refs)) := by
    refine bind_ok_iff.mpr ⟨statements, h.parsed, bind_ok_iff.mpr ⟨refs, h.found, ?_⟩⟩
    rw [if_neg h.inserted]
    exact bind_ok_iff.mpr ⟨(), h.verified, rfl⟩
  unfold addNolockHints
  rw [if_neg h.notBlank, hbody]

/-- **The two outcomes**: the text as it is, or rewritten. -/
theorem addNolockHints_cases (C : CaseMaps) (parse : TsqlParse) (sql : List Char) :
    addNolockHints C parse sql = sql ∨ ∃ statements refs, Rewritten C parse sql statements refs := by
  by_cases hblank : strip sql = []
  · exact Or.inl (if_pos hblank)
  · cases hbody : hintedText C parse sql with
    | error e =>
      left
      unfold addNolockHints
      rw [if_neg hblank, hbody]
    | ok text =>
      obtain ⟨statements, hparsed, hrest⟩ := bind_ok_iff.mp hbody
      obtain ⟨refs, hfound, hrest⟩ := bind_ok_iff.mp hrest
      split_ifs at hrest with hnone
      · left
        cases hrest
        unfold addNolockHints
        rw [if_neg hblank, hbody]
      · obtain ⟨_, hverified, _⟩ := bind_ok_iff.mp hrest
        exact Or.inr ⟨statements, refs, hblank, hparsed, hfound, hnone, hverified⟩

/-- The offsets are places of the text, and its rewriting cuts it there. -/
theorem Rewritten.exists_pieces (h : Rewritten C parse sql statements refs) :
    ∃ pieces, pieces.flatten = sql ∧
      nolockHint.intercalate pieces = addNolockHints C parse sql ∧
      cutPoints pieces = (hintInsertions refs).reverse := by
  have hasc : (hintInsertions refs).reverse.Pairwise (· < ·) :=
    List.pairwise_reverse.mpr (hintInsertions_pairwise refs)
  have hle : ∀ p ∈ (hintInsertions refs).reverse, p ≤ sql.length := by
    intro p hp
    obtain ⟨_, -, _, -, hends⟩ := unhintedTable_of_insertion h.found (List.mem_reverse.mp hp)
    exact hends.le_length
  obtain ⟨pieces, -, hflat, hjoin, hcut⟩ := LocalSqlAgent.exists_pieces nolockHint hasc hle
  refine ⟨pieces, hflat, ?_, hcut⟩
  rw [hjoin, h.output, insertAll, List.reverse_reverse, withHints]

/-- A rewritten text is longer by its hints. -/
theorem Rewritten.length_output (h : Rewritten C parse sql statements refs) :
    (addNolockHints C parse sql).length =
      sql.length + nolockHint.length * (hintInsertions refs).length := by
  obtain ⟨pieces, hflat, hjoin, hcut⟩ := h.exists_pieces
  rw [← hjoin, length_intercalate, hflat, hcut, List.length_reverse]

/-! ## The second run -/

/-- **What the check establishes**: every reference of the rewritten text has a hint list. -/
theorem all_hinted_of_verify {rewritten : List Char} {u : Unit}
    (h : verify C parse rewritten refs = .ok u) :
    ∃ statements after, parseQueries parse rewritten = .ok statements ∧
      references C rewritten statements = .ok after ∧
      ∀ r ∈ after, hasHints r.table.node = true := by
  obtain ⟨statements, hparsed, h⟩ := bind_ok_iff.mp h
  obtain ⟨after, hafter, h⟩ := bind_ok_iff.mp h
  obtain ⟨hsame, hpairs⟩ := check_then_ok_iff.mp h
  rw [refuseIf_ok_iff, not_not] at hsame
  rw [checkAll_ok_iff] at hpairs
  have hlength : after.length = refs.length := by simpa using congrArg List.length hsame
  refine ⟨statements, after, hparsed, hafter, fun r hr => ?_⟩
  rw [← List.map_snd_zip hlength.le] at hr
  obtain ⟨pair, hpair, rfl⟩ := List.mem_map.mp hr
  obtain ⟨hhints, -⟩ := check_then_ok_iff.mp (hpairs pair hpair)
  rw [refuseIf_ok_iff, Bool.not_eq_false] at hhints
  exact hhints

/-- **A second run changes nothing**: a rewritten text has passed the check, which leaves no offset
to insert at. -/
theorem addNolockHints_twice (C : CaseMaps) (parse : TsqlParse) (sql : List Char) :
    addNolockHints C parse (addNolockHints C parse sql) = addNolockHints C parse sql := by
  rcases addNolockHints_cases C parse sql with hsame | ⟨statements, refs, hrewritten⟩
  · rw [hsame, hsame]
  · rcases addNolockHints_cases C parse (addNolockHints C parse sql) with hsame | ⟨_, refs', hagain⟩
    · exact hsame
    · exfalso
      have hverified := hrewritten.verified
      rw [← hrewritten.output] at hverified
      obtain ⟨_, after, hparsed, hafter, hhinted⟩ := all_hinted_of_verify hverified
      cases Except.ok.inj (hagain.parsed.symm.trans hparsed)
      cases Except.ok.inj (hagain.found.symm.trans hafter)
      obtain ⟨p, hp⟩ := List.exists_mem_of_ne_nil _ hagain.inserted
      obtain ⟨r, hr, hat⟩ := mem_hintInsertions.mp hp
      obtain ⟨⟨st, o⟩, -, href⟩ := exists_left_of_forall₂ (mapM_ok_iff.mp hafter) r hr
      -- The reference found at `o` is `o` itself, hinted or not.
      by_cases hbare : hasHints o.node = true
      · rw [referenceAt_hinted href hbare] at hat
        cases hat
      · rw [Bool.not_eq_true] at hbare
        obtain ⟨q, rfl, -⟩ := referenceAt_unhinted href hbare
        rw [hhinted _ hr] at hbare
        cases hbare

/-! ## The law -/

/-- **An overlooked reference**: an unhinted table taken for a CTE, no hint being inserted where it
ends. -/
structure Overlooked (C : CaseMaps) (sql : List Char) (refs : List HintRef) (st : ParsedStatement)
    (o : ExprOcc) : Prop where
  inTree : InTree st.tree o
  isTable : o.node.cls = .table
  bare : hasHints o.node = false
  taken : TakenForCte C o
  elsewhere : ∀ p ∈ hintInsertions refs, ¬ EndsAt sql st o p

theorem parsed_of_parseQueries (h : parseQueries parse sql = .ok statements) :
    ∃ parsed, parse sql = some parsed ∧ parsed.reduceOption = statements := by
  cases hparse : parse sql with
  | none => simp [parseQueries, hparse] at h
  | some parsed =>
    simp only [parseQueries, hparse] at h
    obtain ⟨_, _, h⟩ := bind_ok_iff.mp h
    obtain ⟨_, _, h⟩ := bind_ok_iff.mp h
    exact ⟨parsed, rfl, Except.ok.inj h⟩

/-- A rewritten text without an overlooked reference is hinted exactly. -/
theorem Rewritten.hintedExactly (h : Rewritten C parse sql statements refs)
    (hnone : ∀ st ∈ statements, ∀ o, ¬ Overlooked C sql refs st o) :
    HintedExactly C sql statements (addNolockHints C parse sql) := by
  obtain ⟨pieces, hflat, hjoin, hcut⟩ := h.exists_pieces
  refine ⟨pieces, hflat, hjoin, ?_, fun st hst o ho => ?_, fun p hp => ?_⟩
  · rw [hcut]
    exact List.pairwise_reverse.mpr (hintInsertions_pairwise refs)
  · rw [hcut]
    simp only [List.mem_reverse]
    rcases readsTable_iff.mp ho.reads with hphysical | htaken
    · exact exists_insertion h.found hst (mem_physicalTables.mpr ⟨ho.inTree, ho.isTable, hphysical⟩)
        ho.bare
    · by_contra hmiss
      exact hnone st hst o ⟨ho.inTree, ho.isTable, ho.bare, htaken,
        fun p hp hends => hmiss ⟨p, hp, hends⟩⟩
  · rw [hcut, List.mem_reverse] at hp
    exact unhintedTable_of_insertion h.found hp

/-- A text hinted exactly is cut only where the rewriter inserts: its offsets are among the cuts, and
the output is no longer than they make it. -/
theorem Rewritten.mem_of_cut (h : Rewritten C parse sql statements refs) {pieces : List (List Char)}
    (hflat : pieces.flatten = sql)
    (hjoin : nolockHint.intercalate pieces = addNolockHints C parse sql)
    (hends : ∀ st ∈ statements, ∀ o, UnhintedTable C st o →
      ∃ p ∈ cutPoints pieces, EndsAt sql st o p) {p : ℕ} (hp : p ∈ cutPoints pieces) :
    p ∈ hintInsertions refs := by
  have hsubset : hintInsertions refs ⊆ cutPoints pieces := by
    intro q hq
    obtain ⟨st, hst, o, ho, hq⟩ := unhintedTable_of_insertion h.found hq
    obtain ⟨q', hq', hends'⟩ := hends st hst o ho
    rwa [hq.unique hends']
  have hlength : (cutPoints pieces).length = (hintInsertions refs).length := by
    have hout := h.length_output
    rw [← hjoin, length_intercalate, hflat] at hout
    exact Nat.eq_of_mul_eq_mul_left (by decide) (Nat.add_left_cancel hout)
  have hnodup : (hintInsertions refs).Nodup := (hintInsertions_pairwise refs).imp fun hgt => ne_of_gt hgt
  have hperm := (List.subperm_of_subset hnodup hsubset).perm_of_length_le hlength.le
  exact hperm.mem_iff.mpr hp

/-- A rewritten text with an overlooked reference is not what is expected. -/
theorem HintsExact.not_overlooked (h : HintsExact C parse sql)
    (hrewritten : Rewritten C parse sql statements refs) (hst : st ∈ statements) :
    ¬ Overlooked C sql refs st o := by
  intro hover
  have hlonger : addNolockHints C parse sql ≠ sql := by
    intro hsame
    have hout := hrewritten.length_output
    have hpos : 0 < (hintInsertions refs).length := List.length_pos_of_ne_nil hrewritten.inserted
    have hhint : nolockHint.length = 14 := by decide
    rw [hsame, hhint] at hout
    omega
  obtain ⟨parsed, hparse, pieces, hflat, hjoin, -, hends, -⟩ := h.1.resolve_left hlonger
  obtain ⟨parsed', hparse', rfl⟩ := parsed_of_parseQueries hrewritten.parsed
  cases Option.some.inj (hparse.symm.trans hparse')
  obtain ⟨p, hp, hat⟩ := hends st hst o
    ⟨hover.inTree, hover.isTable, readsTable_iff.mpr (Or.inr hover.taken), hover.bare⟩
  exact hover.elsewhere p (hrewritten.mem_of_cut hflat hjoin hends hp) hat

/-- **The rewriter meets its expectation exactly when it overlooks nothing**: the output is the text,
or the text with one hint behind each unhinted table reference and no other change, and stays as it
is on a second run, if and only if no rewritten statement has a table that is taken for a CTE. -/
theorem addNolockHints_exact_iff (C : CaseMaps) (parse : TsqlParse) (sql : List Char) :
    HintsExact C parse sql ↔ ∀ statements refs, Rewritten C parse sql statements refs →
      ∀ st ∈ statements, ∀ o, ¬ Overlooked C sql refs st o := by
  constructor
  · intro h statements refs hrewritten st hst o
    exact h.not_overlooked hrewritten hst
  · intro hnone
    refine ⟨?_, addNolockHints_twice C parse sql⟩
    rcases addNolockHints_cases C parse sql with hsame | ⟨statements, refs, hrewritten⟩
    · exact Or.inl hsame
    · obtain ⟨parsed, hparse, rfl⟩ := parsed_of_parseQueries hrewritten.parsed
      exact Or.inr ⟨parsed, hparse, hrewritten.hintedExactly (hnone _ _ hrewritten)⟩

/-! ## A table named like a later CTE -/

/-- The first CTE reads a stored table `b`; the second one is called `b`. -/
def laterCteSql : List Char :=
  ("WITH a AS (SELECT c.Id FROM b JOIN c ON 1 = 1), " ++
    "b AS (SELECT Id FROM a) SELECT Id FROM b").toList

/-- The same text with a hint on `c`. -/
def laterCteHinted : List Char :=
  ("WITH a AS (SELECT c.Id FROM b JOIN c WITH (NOLOCK) ON 1 = 1), " ++
    "b AS (SELECT Id FROM a) SELECT Id FROM b").toList

open Expr in
/-- `c WITH (NOLOCK)`. -/
def nolockTable (name : String) : Expr :=
  .ofCls .table [(.this, ident name),
    (.other "hints", .ofCls (.other "WithTableHint") [(.expressions, .ofCls (.var "NOLOCK"))])]

open Expr in
/-- The tree of the statement, over the table joined in the first CTE. -/
def laterCteTree (joined : Expr) : Expr :=
  let one : Expr := .ofCls (.literal "1" false)
  selectFrom
    [("a", selectFrom [] [columnRef "c" "Id"] (tableRef "" "b" "") [joinOn joined (equals one one)]),
      ("b", selectFrom [] [columnRef "" "Id"] (tableRef "" "a" ""))]
    [columnRef "" "Id"] (tableRef "" "b" "")

/-- The positions of the four table names, the last two of them behind the hint. -/
def laterCteSpan (hint : ℕ) (o : ExprOcc) : Option (ℕ × ℕ) :=
  [([(Arg.this, 0), (.this, 0), (.from_, 1), (.this, 0), (.expressions, 0), (.with_, 0)], (28, 28)),
    ([(Arg.this, 0), (.this, 0), (.joins, 2), (.this, 0), (.expressions, 0), (.with_, 0)], (35, 35)),
    ([(Arg.this, 0), (.this, 0), (.from_, 1), (.this, 0), (.expressions, 1), (.with_, 0)],
      (69 + hint, 69 + hint)),
    ([(Arg.this, 0), (.this, 0), (.from_, 2)], (87 + hint, 87 + hint))].lookup
  (o.frames.map fun f => (f.key, f.before.length))

/-- The statement as parsed. -/
def laterCteStatement : ParsedStatement :=
  ⟨laterCteTree (Expr.tableRef "" "c" ""), laterCteSpan 0⟩

/-- The parser on the two texts. -/
def laterCteParse : TsqlParse := fun text =>
  if text = laterCteSql then some [some laterCteStatement]
  else if text = laterCteHinted then
    some [some ⟨laterCteTree (nolockTable "c"), laterCteSpan nolockHint.length⟩]
  else none

theorem laterCteSql_eq : laterCteSql =
  ['W', 'I', 'T', 'H', ' ', 'a', ' ', 'A', 'S', ' ', '(', 'S', 'E', 'L', 'E', 'C', 'T', ' ', 'c', '.', 'I',
   'd', ' ', 'F', 'R', 'O', 'M', ' ', 'b', ' ', 'J', 'O', 'I', 'N', ' ', 'c', ' ', 'O', 'N', ' ', '1', ' ',
   '=', ' ', '1', ')', ',', ' ', 'b', ' ', 'A', 'S', ' ', '(', 'S', 'E', 'L', 'E', 'C', 'T', ' ', 'I', 'd',
   ' ', 'F', 'R', 'O', 'M', ' ', 'a', ')', ' ', 'S', 'E', 'L', 'E', 'C', 'T', ' ', 'I', 'd', ' ', 'F', 'R',
   'O', 'M', ' ', 'b'] :=
  String.toList_append.trans (congrArg₂ (· ++ ·) String.toList_ofList String.toList_ofList)

theorem laterCteHinted_eq : laterCteHinted =
  ['W', 'I', 'T', 'H', ' ', 'a', ' ', 'A', 'S', ' ', '(', 'S', 'E', 'L', 'E', 'C', 'T', ' ', 'c', '.', 'I',
   'd', ' ', 'F', 'R', 'O', 'M', ' ', 'b', ' ', 'J', 'O', 'I', 'N', ' ', 'c', ' ', 'W', 'I', 'T', 'H', ' ',
   '(', 'N', 'O', 'L', 'O', 'C', 'K', ')', ' ', 'O', 'N', ' ', '1', ' ', '=', ' ', '1', ')', ',', ' ', 'b',
   ' ', 'A', 'S', ' ', '(', 'S', 'E', 'L', 'E', 'C', 'T', ' ', 'I', 'd', ' ', 'F', 'R', 'O', 'M', ' ', 'a',
   ')', ' ', 'S', 'E', 'L', 'E', 'C', 'T', ' ', 'I', 'd', ' ', 'F', 'R', 'O', 'M', ' ', 'b'] :=
  String.toList_append.trans (congrArg₂ (· ++ ·) String.toList_ofList String.toList_ofList)

theorem laterCteParse_hinted : laterCteParse laterCteHinted =
    some [some ⟨laterCteTree (nolockTable "c"), laterCteSpan nolockHint.length⟩] := by
  rw [laterCteParse, if_neg, if_pos rfl]
  rw [laterCteHinted_eq, laterCteSql_eq]
  decide

theorem laterCteParse_sql : laterCteParse laterCteSql = some [some laterCteStatement] := if_pos rfl

theorem withHints_laterCte : withHints laterCteSql [36] = laterCteHinted := by
  rw [laterCteHinted_eq, laterCteSql_eq]
  rfl

theorem references_laterCte : ∃ refs, references asciiCase laterCteSql [laterCteStatement] = .ok refs ∧
    hintInsertions refs = [36] ∧ verify asciiCase laterCteParse laterCteHinted refs = .ok () := by
  unfold verify parseQueries
  rw [laterCteParse_hinted, laterCteSql_eq, laterCteHinted_eq]
  exact ⟨_, rfl, rfl, rfl⟩

theorem laterCte_tables_ne_nil :
    (preorder laterCteStatement.tree).filter (·.node.cls.isTable) ≠ [] :=
  List.ne_nil_of_length_pos (by decide)

/-- The reference to the stored table `b`, the first of the statement. -/
def laterCteTable : ExprOcc :=
  ((preorder laterCteStatement.tree).filter (·.node.cls.isTable)).head laterCte_tables_ne_nil

/-- **The table `b` goes without its hint**: `c` is hinted beside it. -/
theorem laterCte_overlooked : ¬ HintsExact asciiCase laterCteParse laterCteSql := by
  intro h
  obtain ⟨refs, hfound, hoffsets, hverified⟩ := references_laterCte
  have hrewritten : Rewritten asciiCase laterCteParse laterCteSql [laterCteStatement] refs := by
    refine ⟨?_, by rw [parseQueries, laterCteParse_sql]; rfl, hfound, by simp [hoffsets], ?_⟩
    · rw [laterCteSql_eq]
      decide
    · rwa [hoffsets, withHints_laterCte]
  obtain ⟨hin, htable⟩ := List.mem_filter.mp (List.head_mem laterCte_tables_ne_nil)
  have hends : EndsAt laterCteSql laterCteStatement laterCteTable 29 :=
    endsAt_of_insertionPoint (by rw [laterCteSql_eq]; rfl)
  have htaken : TakenForCte asciiCase laterCteTable :=
    ⟨⟨⟨_, rfl, by decide, rfl, rfl⟩, by decide, rfl, rfl⟩, rfl, by decide, by decide⟩
  refine h.not_overlooked (o := laterCteTable) hrewritten List.mem_cons_self
    ⟨mem_preorder_iff.mp hin, Cls.isTable_iff.mp htable, rfl, htaken, fun p hp hat => ?_⟩
  · rw [hoffsets, List.mem_singleton] at hp
    have heq := hat.unique hends
    omega

end LocalSqlAgent
