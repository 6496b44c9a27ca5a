import LocalSqlAgent.Eval.CountQuery
import LocalSqlAgent.Eval.Fingerprint

/-! # The names of the count query's columns

`_name_projections` renames an output column that has no name or one seen before, to `_c` and its place. The
name it makes up is not looked up among those seen, so it may be that of a column in front.

* **`NeedsName`**: a column is nameless, repeated, or has a name made up for one in front of it.
* **`GivenName`**: a name a column is given, by the loop or by the generator.
* **`namesDistinct_iff`**: the names of the written columns are distinct if and only if no column that keeps
  its own is written like one made up behind it and the generator gives none that another column has. -/

namespace LocalSqlAgent

variable {C : CaseMaps} {G : Generator} {p : Expr} {ps rest : List Expr} {i j k : ℕ} {n : String}
  {seen : List String}

/-! ## Which columns need a name -/

/-- What the loop takes for the name of a column that is no star. -/
def writtenKey (C : CaseMaps) (p : Expr) : Option String :=
  if isStarProjection p then none else some (C.lower p.aliasOrName)

/-- **The columns that need a name**, among the output columns of a select. -/
inductive NeedsName (C : CaseMaps) (ps : List Expr) : ℕ → Prop
  /-- A column without a name. -/
  | nameless {i : ℕ} : ps[i]?.bind (writtenKey C) = some "" → NeedsName C ps i
  /-- A column with the name of one in front. -/
  | repeated {i j : ℕ} {n : String} : j < i → ps[i]?.bind (writtenKey C) = some n →
      ps[j]?.bind (writtenKey C) = some n → NeedsName C ps i
  /-- A column with the name made up for one in front. -/
  | madeUp {i j : ℕ} : j < i → NeedsName C ps j → ps[i]?.bind (writtenKey C) = some (madeUpName j) →
      NeedsName C ps i

/-- The names the loop has seen before a place. -/
def SeenBefore (C : CaseMaps) (ps : List Expr) (k : ℕ) (n : String) : Prop :=
  ∃ j < k, (NeedsName C ps j ∧ n = madeUpName j) ∨
    (¬ NeedsName C ps j ∧ ps[j]?.bind (writtenKey C) = some n)

/-- A name written in front has been seen, unless it is empty. -/
theorem seenBefore_of_written (hne : n ≠ "") (hj : j < i) (h : ps[j]?.bind (writtenKey C) = some n) :
    SeenBefore C ps i n := by
  -- the first place it is written at
  induction j using Nat.strong_induction_on with
  | _ j ih =>
    by_cases hneeds : NeedsName C ps j
    · cases hneeds with
      | nameless hempty => exact absurd (Option.some.inj (h.symm.trans hempty)) hne
      | @repeated _ j' m hlt hm hm' =>
        have heq : m = n := Option.some.inj (hm.symm.trans h)
        exact ih j' hlt (by omega) (heq ▸ hm')
      | @madeUp _ j' hlt hj' hm =>
        have heq : n = madeUpName j' := Option.some.inj (h.symm.trans hm)
        exact ⟨j', by omega, .inl ⟨hj', heq⟩⟩
    · exact ⟨j, hj, .inr ⟨hneeds, h⟩⟩

/-- **The test of the loop**: a column is renamed if and only if it needs a name. -/
theorem needsName_iff (h : ps[i]?.bind (writtenKey C) = some n) :
    NeedsName C ps i ↔ n = "" ∨ SeenBefore C ps i n := by
  constructor
  · intro hneeds
    by_cases hne : n = ""
    · exact .inl hne
    refine .inr ?_
    cases hneeds with
    | nameless hempty => exact absurd (Option.some.inj (h.symm.trans hempty)) hne
    | @repeated _ j m hlt hm hm' =>
      have heq : m = n := Option.some.inj (hm.symm.trans h)
      exact seenBefore_of_written hne hlt (heq ▸ hm')
    | @madeUp _ j hlt hj hm => exact ⟨j, hlt, .inl ⟨hj, Option.some.inj (h.symm.trans hm)⟩⟩
  · rintro (rfl | ⟨j, hlt, ⟨hj, rfl⟩ | ⟨-, hwritten⟩⟩)
    · exact .nameless h
    · exact .madeUp hlt hj h
    · exact .repeated hlt h hwritten

/-- A star needs no name. -/
theorem not_needsName_of_none (h : ps[i]?.bind (writtenKey C) = none) : ¬ NeedsName C ps i := by
  intro hneeds
  cases hneeds with
  | nameless hm => rw [h] at hm; cases hm
  | repeated _ hm _ => rw [h] at hm; cases hm
  | madeUp _ _ hm => rw [h] at hm; cases hm

/-! ## The loop -/

theorem seenBefore_succ : SeenBefore C ps (k + 1) n ↔ SeenBefore C ps k n ∨
    (NeedsName C ps k ∧ n = madeUpName k) ∨ (¬ NeedsName C ps k ∧ ps[k]?.bind (writtenKey C) = some n) := by
  constructor
  · rintro ⟨j, hj, hname⟩
    by_cases heq : j = k
    · exact .inr (heq ▸ hname)
    · exact .inl ⟨j, by omega, hname⟩
  · rintro (⟨j, hj, hname⟩ | hname)
    · exact ⟨j, by omega, hname⟩
    · exact ⟨k, by omega, hname⟩

/-- **What the loop leaves at each place**: a column that needs a name under the one made up for its place,
any other as it is. -/
theorem nameFrom_getElem? (hps : ∀ i, ps[k + i]? = rest[i]?) (hseen : ∀ n, n ∈ seen ↔ SeenBefore C ps k n) :
    (NeedsName C ps (k + i) → (nameFrom C k seen rest)[i]? = rest[i]?.map (underAlias (madeUpName (k + i)))) ∧
      (¬ NeedsName C ps (k + i) → (nameFrom C k seen rest)[i]? = rest[i]?) := by
  induction rest generalizing k seen i with
  | nil => simp [nameFrom]
  | cons p rest ih =>
    have hhead : ps[k]? = some p := hps 0
    have htail : ∀ i, ps[k + 1 + i]? = rest[i]? := fun i => by
      rw [Nat.add_assoc, Nat.add_comm 1 i, hps (i + 1), List.getElem?_cons_succ]
    have hwritten : ps[k]?.bind (writtenKey C) = writtenKey C p := by rw [hhead, Option.bind_some]
    -- behind the head the loop goes on with what it has seen by then
    have hbehind : ∀ seen', (∀ n, n ∈ seen' ↔ SeenBefore C ps (k + 1) n) → ∀ i,
        (NeedsName C ps (k + (i + 1)) → (nameFrom C (k + 1) seen' rest)[i]? =
            rest[i]?.map (underAlias (madeUpName (k + (i + 1))))) ∧
          (¬ NeedsName C ps (k + (i + 1)) → (nameFrom C (k + 1) seen' rest)[i]? = rest[i]?) := by
      intro seen' hseen' i
      rw [show k + (i + 1) = k + 1 + i by omega]
      exact ih htail hseen'
    rw [nameFrom]
    by_cases hstar : isStarProjection p = true
    · have hnone : ps[k]?.bind (writtenKey C) = none := by rw [hwritten, writtenKey, if_pos hstar]
      have hkept := not_needsName_of_none hnone
      have hnext : ∀ n, n ∈ seen ↔ SeenBefore C ps (k + 1) n := fun n => by
        rw [hseen, seenBefore_succ, hnone]
        simp [hkept]
      rw [if_pos hstar]
      cases i with
      | zero => exact ⟨fun h => absurd h hkept, fun _ => rfl⟩
      | succ i => exact hbehind seen hnext i
    · have hname : ps[k]?.bind (writtenKey C) = some (C.lower p.aliasOrName) := by
        rw [hwritten, writtenKey, if_neg hstar]
      rw [if_neg hstar]
      by_cases hneeds : NeedsName C ps k
      · have htest : C.lower p.aliasOrName = "" ∨ C.lower p.aliasOrName ∈ seen := by
          rw [hseen]
          exact (needsName_iff hname).mp hneeds
        have hnext : ∀ n, n ∈ madeUpName k :: seen ↔ SeenBefore C ps (k + 1) n := fun n => by
          rw [List.mem_cons, hseen, seenBefore_succ]
          simp only [hneeds, true_and, not_true_eq_false, false_and, or_false]
          exact or_comm
        rw [if_pos htest]
        cases i with
        | zero => exact ⟨fun _ => rfl, fun h => absurd hneeds h⟩
        | succ i => exact hbehind _ hnext i
      · have htest : ¬ (C.lower p.aliasOrName = "" ∨ C.lower p.aliasOrName ∈ seen) := by
          rw [hseen]
          exact mt (needsName_iff hname).mpr hneeds
        have hnext : ∀ n, n ∈ C.lower p.aliasOrName :: seen ↔ SeenBefore C ps (k + 1) n := fun n => by
          rw [List.mem_cons, hseen, seenBefore_succ, hname]
          simp only [hneeds, false_and, not_false_eq_true, true_and, false_or, Option.some.injEq]
          rw [or_comm, eq_comm]
        rw [if_neg htest]
        cases i with
        | zero => exact ⟨fun h => absurd h hneeds, fun _ => rfl⟩
        | succ i => exact hbehind _ hnext i

/-- What the whole loop leaves at each place. -/
theorem nameFrom_zero (i : ℕ) :
    (NeedsName C ps i → (nameFrom C 0 [] ps)[i]? = ps[i]?.map (underAlias (madeUpName i))) ∧
      (¬ NeedsName C ps i → (nameFrom C 0 [] ps)[i]? = ps[i]?) := by
  have hplace : ∀ i, ps[0 + i]? = ps[i]? := fun i => by rw [Nat.zero_add]
  have hnone : ∀ n, n ∈ ([] : List String) ↔ SeenBefore C ps 0 n := fun n => by simp [SeenBefore]
  have hloop := nameFrom_getElem? hplace hnone (i := i)
  rwa [Nat.zero_add] at hloop

/-! ## The names as they are written -/

/-- The output columns of the derived table, as they are written. -/
def writtenColumns (C : CaseMaps) (G : Generator) (ps : List Expr) : List Expr :=
  (nameFrom C 0 [] ps).mapIdx G.written

/-- A column that keeps its own name or is a star is written as it is; any other gets the generator's. -/
theorem writtenColumns_of_kept (h : ¬ NeedsName C ps i) :
    (writtenColumns C G ps)[i]? = ps[i]?.map (G.written i) := by
  rw [writtenColumns, List.getElem?_mapIdx, (nameFrom_zero i).2 h]

/-- A column that needs a name is written under the one made up for its place. -/
theorem writtenColumns_of_needs (h : NeedsName C ps i) :
    (writtenColumns C G ps)[i]? = ps[i]?.map fun p => G.written i (underAlias (madeUpName i) p) := by
  rw [writtenColumns, List.getElem?_mapIdx, (nameFrom_zero i).1 h, Option.map_map]
  rfl

theorem madeUpName_ne_empty (i : ℕ) : madeUpName i ≠ "" := fun h => by
  have hlength := congrArg String.length h
  rw [madeUpName, String.length_append] at hlength
  have hpre : "_c".length = 2 := rfl
  have hempty : "".length = 0 := rfl
  omega

theorem madeUpName_injective (h : madeUpName i = madeUpName j) : i = j :=
  Nat.succ_injective (toDigits_injective (String.ofList_injective ((String.append_right_inj _).mp h)))

theorem arg_setSlot_self {e c : Expr} {a : Arg} : (e.setSlot a [c]).arg a = some c := by
  rw [RoseTree.arg, slot_setSlot_self]
  rfl

/-- An alias is the name of the column. -/
theorem aliasName_underAlias (n : String) (e : Expr) : (underAlias n e).aliasName = n := by
  have harg : (underAlias n e).arg .alias = some (Expr.ident n) := by
    rw [underAlias]
    split
    · exact arg_setSlot_self
    · rfl
  rw [RoseTree.aliasName, harg]
  rfl

theorem isStarProjection_underAlias (n : String) (e : Expr) : isStarProjection (underAlias n e) = false := by
  have hcls : (underAlias n e).cls = .alias ∨ (underAlias n e).cls = .subquery := by
    rw [underAlias]
    split
    · assumption
    · exact .inl rfl
  rcases hcls with h | h <;> simp [isStarProjection, h]

theorem sqlName_underAlias {e : Expr} (hne : n ≠ "") : sqlName (underAlias n e) = n := by
  rw [sqlName, isStarProjection_underAlias, aliasName_underAlias, if_neg Bool.false_ne_true, if_pos hne]

theorem nameKey_underAlias {e : Expr} (hne : n ≠ "") : nameKey C (underAlias n e) = some (C.lower n) := by
  rw [nameKey, sqlName_underAlias hne, if_neg hne]

/-- A column with a name: its alias, or the column it is. -/
theorem named_cases (h : sqlName p ≠ "") : isStarProjection p = false ∧
    ((p.aliasName ≠ "" ∧ sqlName p = p.aliasName) ∨
      (p.aliasName = "" ∧ p.cls = .column ∧ sqlName p = p.name)) := by
  unfold sqlName at h ⊢
  by_cases hstar : isStarProjection p = true
  · exact absurd (if_pos hstar) h
  · rw [if_neg hstar] at h ⊢
    refine ⟨by simpa using hstar, ?_⟩
    by_cases halias : p.aliasName ≠ ""
    · exact .inl ⟨halias, if_pos halias⟩
    · rw [if_neg halias] at h ⊢
      by_cases hcolumn : p.cls = .column
      · exact .inr ⟨not_not.mp halias, hcolumn, if_pos hcolumn⟩
      · exact absurd (if_neg hcolumn) h

/-- The loop looks at a column's own name. -/
theorem writtenKey_of_nameKey (h : nameKey C p = some n) : writtenKey C p = some n := by
  unfold nameKey at h
  split at h
  · cases h
  · rename_i hne
    obtain ⟨hstar, ⟨halias, hname⟩ | ⟨halias, -, hname⟩⟩ := named_cases hne
    · rw [writtenKey, hstar, if_neg Bool.false_ne_true, RoseTree.aliasOrName, if_neg halias, ← hname]
      exact h
    · rw [writtenKey, hstar, if_neg Bool.false_ne_true, RoseTree.aliasOrName, if_pos halias, ← hname]
      exact h

/-- A column without a name has no alias. -/
theorem aliasName_of_unnamed (hstar : isStarProjection p = false) (h : sqlName p = "") : p.aliasName = "" := by
  by_contra halias
  rw [sqlName, hstar, if_neg Bool.false_ne_true, if_pos halias] at h
  exact halias h

/-- **A name a column is given**: made up by the loop, or the generator's. -/
inductive GivenName (C : CaseMaps) (G : Generator) (ps : List Expr) : ℕ → String → Prop
  | madeUp {i : ℕ} : NeedsName C ps i → GivenName C G ps i (madeUpName i)
  | label {i : ℕ} {p : Expr} : ¬ NeedsName C ps i → ps[i]? = some p → isStarProjection p = false →
      sqlName p = "" → GivenName C G ps i (C.lower (G.label i p))

theorem GivenName.cases (h : GivenName C G ps i n) : (NeedsName C ps i ∧ n = madeUpName i) ∨
    ∃ p, ¬ NeedsName C ps i ∧ ps[i]? = some p ∧ isStarProjection p = false ∧ sqlName p = "" ∧
      n = C.lower (G.label i p) := by
  cases h with
  | madeUp hneeds => exact .inl ⟨hneeds, rfl⟩
  | label hkept hp hstar hname => exact .inr ⟨_, hkept, hp, hstar, hname, rfl⟩

/-- A name a column had and keeps. -/
def KeepsName (C : CaseMaps) (ps : List Expr) (i : ℕ) (n : String) : Prop :=
  ¬ NeedsName C ps i ∧ ps[i]?.bind (nameKey C) = some n

/-- A column that needs a name is there. -/
theorem NeedsName.exists (h : NeedsName C ps i) : ∃ p, ps[i]? = some p := by
  rw [← Option.isSome_iff_exists]
  cases h with
  | nameless h => exact Option.isSome_of_isSome_bind (Option.isSome_of_eq_some h)
  | repeated _ h _ => exact Option.isSome_of_isSome_bind (Option.isSome_of_eq_some h)
  | madeUp _ _ h => exact Option.isSome_of_isSome_bind (Option.isSome_of_eq_some h)

variable (hlower : ∀ i, C.lower (madeUpName i) = madeUpName i)
include hlower

/-- The written column of one that needs a name. -/
theorem written_nameKey_of_needs (h : NeedsName C ps i) :
    (writtenColumns C G ps)[i]?.bind (nameKey C) = some (madeUpName i) := by
  obtain ⟨p, hp⟩ := h.exists
  have hwritten : G.written i (underAlias (madeUpName i) p) = underAlias (madeUpName i) p := by
    refine if_pos (.inr ?_)
    rw [aliasName_underAlias]
    exact madeUpName_ne_empty i
  rw [writtenColumns_of_needs h, hp, Option.map_some, hwritten, Option.bind_some,
    nameKey_underAlias (madeUpName_ne_empty i), hlower]

omit hlower in
/-- The written column of one without a name that needs none made up: the generator's. -/
theorem written_nameKey_of_unnamed (h : ¬ NeedsName C ps i) (hp : ps[i]? = some p)
    (hstar : isStarProjection p = false) (hname : sqlName p = "") :
    (writtenColumns C G ps)[i]?.bind (nameKey C) = some (C.lower (G.label i p)) := by
  have hwritten : G.written i p = underAlias (G.label i p) p := by
    refine if_neg ?_
    rw [hstar, aliasName_of_unnamed hstar hname]
    exact fun h => h.elim Bool.false_ne_true fun h => h rfl
  rw [writtenColumns_of_kept h, hp, Option.map_some, hwritten, Option.bind_some,
    nameKey_underAlias (G.named i p)]

omit hlower in
/-- The written column of one that keeps its name. -/
theorem written_nameKey_of_keeps (h : ¬ NeedsName C ps i) (hp : ps[i]? = some p) (hname : sqlName p ≠ "") :
    (writtenColumns C G ps)[i]?.bind (nameKey C) = nameKey C p := by
  rw [writtenColumns_of_kept h, hp, Option.map_some, Option.bind_some, Generator.written]
  obtain ⟨hstar, ⟨halias, -⟩ | ⟨halias, hcolumn, hcolumnName⟩⟩ := named_cases hname
  · rw [if_pos (.inr halias)]
  · -- a column written under an alias that is its name
    have hne : p.name ≠ "" := hcolumnName ▸ hname
    rw [if_neg (by simp [hstar, halias]), G.column i p hcolumn hne, nameKey_underAlias hne, nameKey,
      if_neg hname, hcolumnName]

omit hlower in
/-- The written column of a star. -/
theorem written_nameKey_of_star (h : ¬ NeedsName C ps i) (hp : ps[i]? = some p)
    (hstar : isStarProjection p = true) : (writtenColumns C G ps)[i]?.bind (nameKey C) = none := by
  rw [writtenColumns_of_kept h, hp, Option.map_some, Option.bind_some, Generator.written,
    if_pos (.inl hstar), nameKey, sqlName, if_pos hstar, if_pos rfl]

omit hlower in
theorem givenName_iff_of_needs (h : NeedsName C ps i) : GivenName C G ps i n ↔ n = madeUpName i := by
  constructor
  · rintro (_ | ⟨hkept, -, -, -⟩)
    · rfl
    · exact absurd h hkept
  · rintro rfl
    exact .madeUp h

omit hlower in
theorem givenName_iff_of_kept (h : ¬ NeedsName C ps i) (hp : ps[i]? = some p) : GivenName C G ps i n ↔
    isStarProjection p = false ∧ sqlName p = "" ∧ n = C.lower (G.label i p) := by
  constructor
  · rintro (hneeds | ⟨-, hp', hstar, hname⟩)
    · exact absurd hneeds h
    · obtain rfl : p = _ := Option.some.inj (hp.symm.trans hp')
      exact ⟨hstar, hname, rfl⟩
  · rintro ⟨hstar, hname, rfl⟩
    exact .label h hp hstar hname

omit hlower in
theorem keepsName_iff_of_kept (h : ¬ NeedsName C ps i) (hp : ps[i]? = some p) :
    KeepsName C ps i n ↔ nameKey C p = some n := by
  rw [KeepsName, hp, Option.bind_some, and_iff_right h]

/-- **The name of each written column**: given, or kept. -/
theorem written_nameKey_iff : (writtenColumns C G ps)[i]?.bind (nameKey C) = some n ↔
    GivenName C G ps i n ∨ KeepsName C ps i n := by
  by_cases hneeds : NeedsName C ps i
  · have hkeeps : ¬ KeepsName C ps i n := fun h => h.1 hneeds
    rw [written_nameKey_of_needs hlower hneeds, givenName_iff_of_needs hneeds, or_iff_left hkeeps,
      Option.some.injEq, eq_comm]
  · cases hp : ps[i]? with
    | none =>
      have hgiven : ¬ GivenName C G ps i n := by
        rintro (h | ⟨-, h, -, -⟩)
        · exact hneeds h
        · rw [hp] at h
          cases h
      have hkeeps : ¬ KeepsName C ps i n := by
        rintro ⟨-, h⟩
        rw [hp] at h
        cases h
      rw [writtenColumns_of_kept hneeds, hp]
      exact ⟨fun h => (by cases h), fun h => (h.elim hgiven hkeeps).elim⟩
    | some p =>
      rw [givenName_iff_of_kept hneeds hp, keepsName_iff_of_kept hneeds hp]
      by_cases hname : sqlName p = ""
      · have hkey : nameKey C p = none := if_pos hname
        by_cases hstar : isStarProjection p = true
        · rw [written_nameKey_of_star hneeds hp hstar, hkey]
          simp [hstar]
        · rw [Bool.not_eq_true] at hstar
          rw [written_nameKey_of_unnamed hneeds hp hstar hname, hkey, Option.some.injEq]
          simp [hstar, hname, eq_comm]
      · rw [written_nameKey_of_keeps hneeds hp hname]
        simp [hname]

omit hlower in
/-- **Every written column has a name**, stars aside. -/
theorem written_named : ∀ p ∈ writtenColumns C G ps, isStarProjection p = true ∨ sqlName p ≠ "" := by
  intro p hp
  rw [writtenColumns, List.mem_mapIdx] at hp
  obtain ⟨i, hi, rfl⟩ := hp
  generalize (nameFrom C 0 [] ps)[i] = e
  rw [Generator.written]
  split
  · rename_i hkept
    by_cases hstar : isStarProjection e = true
    · exact .inl hstar
    · refine .inr ?_
      have halias : e.aliasName ≠ "" := hkept.resolve_left hstar
      rwa [sqlName, if_neg hstar, if_pos halias]
  · exact .inr (by rw [sqlName_underAlias (G.named i e)]; exact G.named i e)

/-! ## When they are distinct -/

omit hlower in
/-- The values a list gives are distinct if those at two places are. -/
theorem nodup_filterMap_iff {α β : Type} {f : α → Option β} {l : List α} : (l.filterMap f).Nodup ↔
    ∀ i j : ℕ, i < j → ∀ b, l[i]?.bind f = some b → l[j]?.bind f ≠ some b := by
  rw [List.Nodup, List.pairwise_filterMap, List.pairwise_iff_getElem]
  constructor
  · intro h i j hij b hi hj
    obtain ⟨a, ha, hfa⟩ := Option.bind_eq_some_iff.mp hi
    obtain ⟨a', ha', hfa'⟩ := Option.bind_eq_some_iff.mp hj
    obtain ⟨hi, rfl⟩ := List.getElem?_eq_some_iff.mp ha
    obtain ⟨hj, rfl⟩ := List.getElem?_eq_some_iff.mp ha'
    exact h i j hi hj hij b hfa b hfa' rfl
  · rintro h i j hi hj hij b hb b' hb' rfl
    exact h i j hij b (by rw [List.getElem?_eq_getElem hi]; exact hb)
      (by rw [List.getElem?_eq_getElem hj]; exact hb')

/-- **No name is given twice**: no column that keeps its name is written like one made up behind it, and the
generator gives no name that another column has. -/
structure NamesClear (C : CaseMaps) (G : Generator) (ps : List Expr) : Prop where
  madeUp : ∀ i j, j < i → NeedsName C ps i → ¬ KeepsName C ps j (madeUpName i)
  labels : ∀ i j p, i ≠ j → ¬ NeedsName C ps i → ps[i]? = some p → isStarProjection p = false →
    sqlName p = "" → ¬ (GivenName C G ps j (C.lower (G.label i p)) ∨ KeepsName C ps j (C.lower (G.label i p)))

omit hlower in
/-- A kept name is the one the loop has looked at. -/
theorem KeepsName.written (h : KeepsName C ps i n) : ps[i]?.bind (writtenKey C) = some n := by
  obtain ⟨p, hp, hname⟩ := Option.bind_eq_some_iff.mp h.2
  rw [hp, Option.bind_some]
  exact writtenKey_of_nameKey hname

/-- **The names of the written columns are distinct if and only if none is given twice.** -/
theorem namesDistinct_iff : ((writtenColumns C G ps).filterMap (nameKey C)).Nodup ↔ NamesClear C G ps := by
  rw [nodup_filterMap_iff]
  simp only [ne_eq, written_nameKey_iff hlower]
  constructor
  · intro h
    refine ⟨fun i j hji hneeds hkeeps => ?_, fun i j p hij hkept hp hstar hname hother => ?_⟩
    · exact h j i hji _ (.inr hkeeps) (.inl (.madeUp hneeds))
    · have hgiven : GivenName C G ps i (C.lower (G.label i p)) := .label hkept hp hstar hname
      rcases Nat.lt_or_gt_of_ne hij with hlt | hgt
      · exact h i j hlt _ (.inl hgiven) hother
      · exact h j i hgt _ hother (.inl hgiven)
  · rintro ⟨hmadeUp, hlabels⟩ i j hij n hi hj
    -- a name of the generator's clashes with none, so both are made up or kept
    have hother : ∀ {k k'}, k ≠ k' → (GivenName C G ps k' n ∨ KeepsName C ps k' n) → GivenName C G ps k n →
        NeedsName C ps k ∧ n = madeUpName k := by
      intro k k' hne hk' hk
      rcases hk.cases with hmade | ⟨p, hkept, hp, hstar, hname, rfl⟩
      · exact hmade
      · exact absurd hk' (hlabels k k' p hne hkept hp hstar hname)
    rcases hi with hgiven | hkeeps
    · obtain ⟨hneeds, rfl⟩ := hother hij.ne hj hgiven
      rcases hj with hgiven' | hkeeps'
      · obtain ⟨-, hequal⟩ := hother hij.ne' (.inl hgiven) hgiven'
        exact hij.ne (madeUpName_injective hequal)
      · exact hkeeps'.1 (.madeUp hij hneeds hkeeps'.written)
    · rcases hj with hgiven' | hkeeps'
      · obtain ⟨hneeds, rfl⟩ := hother hij.ne' (.inr hkeeps) hgiven'
        exact hmadeUp j i hij hneeds hkeeps
      · exact hkeeps'.1 (.repeated hij hkeeps'.written hkeeps.written)

end LocalSqlAgent
