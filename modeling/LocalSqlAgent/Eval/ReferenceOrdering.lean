import LocalSqlAgent.Security.CleanSql
import LocalSqlAgent.Security.TableAllowlist
import LocalSqlAgent.Sql.Tree
import Mathlib.Data.List.Forall2

/-! # The order a reference asks for

A reference with `TOP`, `OFFSET` or `FETCH` and an `ORDER BY` is compared in order, by the columns it is
ordered by. `reference_ordering` looks for them among the selected columns by their bare lower-cased names,
so that a name two of them answer to is taken for the first.

* **`DenotesItem`**: SQL's rule for what an `ORDER BY` expression means in the select list.
* **`referenceOrdering_exact_iff`**: the positions are the ones denoted exactly when an expression has no
  position, or each denotes the first selected column that answers to its bare name. -/

namespace LocalSqlAgent

variable (C : CaseMaps) (T : CharTable) (digit : Char → ℕ)

/-! ## The names of the selected columns -/

/-- The classes under `exp.Cast`. -/
def castClasses : List String := ["Cast", "TryCast", "JSONCast"]

mutual

/-- `projection.name`: a cast is named by its operand, any other expression by its text. -/
def projectedName : Expr → String
  | .node l args =>
    match l.cls with
    | .func f => if f ∈ castClasses then projectedNameAt args else RoseTree.name (.node l args)
    | _ => RoseTree.name (.node l args)

/-- The name of a cast's operand. -/
def projectedNameAt : List (Arg × Expr) → String
  | [] => ""
  | (k, c) :: rest => if k = .this then projectedName c else projectedNameAt rest

end

/-- A `*`, or the `*` of one table. -/
def isStarItem (e : Expr) : Bool :=
  e.cls = .star || (e.cls = .column && (e.arg .this).any (·.cls = .star))

/-- The column that a selected expression is, with an alias or without. -/
def itemColumn (e : Expr) : Option Expr :=
  if e.cls = .column then some e
  else if e.cls = .alias then (e.arg .this).filter (·.cls = .column)
  else none

/-- The lower-cased names one selected expression answers to. -/
def answersTo (e : Expr) : List String :=
  [C.lower (if e.aliasName = "" then projectedName e else e.aliasName)].filter (· ≠ "") ++
    if e.cls = .alias then (itemColumn e).toList.map fun c => C.lower c.name else []

/-- `_projection_names`: the names of each, `none` with a `*`. -/
def projectionNames (items : List Expr) : Option (List (List String)) :=
  if items.any isStarItem then none else some (items.map (answersTo C))

/-! ## The positions -/

/-- `int` of a number token: its digits, and nothing where it has anything else. -/
def ordinalOf (text : String) : Option ℕ :=
  if text ≠ "" ∧ text.toList.all T.isDecimal then intOf digit text.toList else none

/-- Where one `ORDER BY` expression is looked for. -/
def locate (names : List (List String)) (target : Expr) : Option ℕ :=
  match target.cls with
  | .literal text false =>
    (ordinalOf T digit text).bind fun n => if 0 < n ∧ n - 1 < names.length then some (n - 1) else none
  | .column => names.findIdx? (·.contains (C.lower target.name))
  | _ => none

/-- The loop over the `ORDER BY`: nothing as soon as one expression has no position. -/
def locateAll (names : List (List String)) : List Expr → Option (List ℕ)
  | [] => some []
  | target :: rest =>
    (locate C T digit names target).bind fun position => (locateAll names rest).map (position :: ·)

/-- The expressions of an `ORDER BY`. -/
def orderTargets (order : Expr) : List Expr :=
  (order.slot .expressions).map fun ordered => (ordered.arg .this).getD (.ofCls (.other "None"))

/-- **`reference_ordering`**: whether the order of the rows is part of the answer, and by which columns.
`parse` is the dialect's parser, with nothing for a text it refuses. -/
def referenceOrdering (parse : String → Option Expr) (sql : String) : Bool × Option (List ℕ) :=
  match parse sql with
  | none => (false, none)
  | some tree =>
    if tree.cls ≠ .select then (false, none)
    else match tree.arg .order with
      | none => (false, none)
      | some order =>
        if (tree.arg .limit).isNone && (tree.arg .offset).isNone && (tree.arg (.other "fetch")).isNone then
          (false, none)
        else
          (true, (projectionNames C (tree.slot .expressions)).bind fun names =>
            locateAll C T digit names (orderTargets order))

/-! ## What an `ORDER BY` expression denotes -/

/-- Two parts of two names, letter case aside. One that is left out agrees with any: where a statement
resolves, a bare name belongs to one table. -/
def PartsAgree (a b : String) : Prop := a = "" ∨ b = "" ∨ C.lower a = C.lower b

instance (a b : String) : Decidable (PartsAgree C a b) :=
  inferInstanceAs (Decidable (_ ∨ _ ∨ _))

/-- **Two references to one column**: the same name, and qualifiers that agree. -/
structure NamesSameColumn (a b : Expr) : Prop where
  name : C.lower a.name = C.lower b.name
  table : PartsAgree C a.qualifier b.qualifier
  db : PartsAgree C a.db b.db
  catalog : PartsAgree C a.catalog b.catalog

/-- The expression is selected under this alias. -/
def HasAlias (item : Expr) (name : String) : Prop :=
  item.aliasName ≠ "" ∧ C.lower item.aliasName = C.lower name

/-- **SQL's rule for the select list**: an ordinal counts from one, a bare name is an output alias before it
is a column, and a column is the selected one with its qualifier and name. -/
inductive DenotesItem (items : List Expr) (target : Expr) (i : ℕ) : Prop where
  | ordinal (text : String) (literal : target.cls = .literal text false)
      (value : ordinalOf T digit text = some (i + 1)) (bound : i < items.length)
  | outputAlias (item : Expr) (column : target.cls = .column) (bare : target.qualifier = "")
      (selected : items[i]? = some item) (hasAlias : HasAlias C item target.name)
  | column (item c : Expr) (column : target.cls = .column)
      (noAlias : target.qualifier = "" → ∀ other ∈ items, ¬ HasAlias C other target.name)
      (selected : items[i]? = some item) (isColumn : itemColumn item = some c) (same : NamesSameColumn C c target)

/-- A reference whose order is part of the answer: a select with an `ORDER BY` that is cut. -/
structure OrderedReference (tree order : Expr) : Prop where
  select : tree.cls = .select
  order : tree.arg .order = some order
  cut : (tree.arg .limit).isSome ∨ (tree.arg .offset).isSome ∨ (tree.arg (.other "fetch")).isSome

/-- **The positions are what the `ORDER BY` denotes**, and there are none when an expression denotes
nothing. -/
structure KeysDenoted (tree order : Expr) (keys : Option (List ℕ)) : Prop where
  denoted : ∀ positions, keys = some positions →
    List.Forall₂ (DenotesItem C T digit (tree.slot .expressions)) (orderTargets order) positions
  missing : ∀ target ∈ orderTargets order,
    (∀ i, ¬ DenotesItem C T digit (tree.slot .expressions) target i) → keys = none

/-- The expression is no ordinal of a selected column and no column whose bare name one answers to. -/
structure Unlocatable (items : List Expr) (target : Expr) : Prop where
  ordinal : ∀ text, target.cls = .literal text false → ∀ i < items.length, ordinalOf T digit text ≠ some (i + 1)
  column : target.cls = .column → ∀ item ∈ items, C.lower target.name ∉ answersTo C item

/-- The first of the selected expressions that answers to a name. -/
structure FirstToAnswer (items : List Expr) (name : String) (i : ℕ) : Prop where
  answers : ∃ item, items[i]? = some item ∧ name ∈ answersTo C item
  first : ∀ j < i, ∀ item, items[j]? = some item → name ∉ answersTo C item

/-- **Not shadowed**: what the column denotes is the first of the selected ones that answers to its bare
name. -/
def Unshadowed (items : List Expr) (target : Expr) : Prop :=
  ∃ i, DenotesItem C T digit items target i ∧ FirstToAnswer C items (C.lower target.name) i

/-- What a reference must be for its positions to be right: a `*` or an expression that has no position, or
no shadowed column. -/
def Unconfused (tree order : Expr) : Prop :=
  (∃ item ∈ tree.slot .expressions, isStarItem item = true) ∨
    (∃ target ∈ orderTargets order, Unlocatable C T digit (tree.slot .expressions) target) ∨
    ∀ target ∈ orderTargets order, target.cls = .column → Unshadowed C T digit (tree.slot .expressions) target

/-! ## The verdict -/

section Verdict

variable {C T digit} {items : List Expr} {target tree order : Expr} {names : List (List String)} {name : String}
  {k : ℕ} {targets : List Expr} {positions : List ℕ} {parse : String → Option Expr} {sql : String}

theorem exists_of_mem_of_forall₂ {R : Expr → ℕ → Prop} (h : List.Forall₂ R targets positions)
    (hmem : target ∈ targets) : ∃ k, R target k := by
  induction h with
  | nil => exact absurd hmem List.not_mem_nil
  | cons hhead _ ih =>
    rcases List.mem_cons.mp hmem with rfl | hrest
    · exact ⟨_, hhead⟩
    · exact ih hrest

/-- **The loop finds a position for every expression**, or none at all. -/
theorem locateAll_eq_some_iff :
    locateAll C T digit names targets = some positions ↔
      List.Forall₂ (fun target k => locate C T digit names target = some k) targets positions := by
  induction targets generalizing positions with
  | nil => rw [locateAll, Option.some.injEq, List.forall₂_nil_left_iff, eq_comm]
  | cons target rest ih =>
    rw [locateAll, Option.bind_eq_some_iff, List.forall₂_cons_left_iff]
    constructor
    · rintro ⟨k, hk, hrest⟩
      obtain ⟨ks, hks, rfl⟩ := Option.map_eq_some_iff.mp hrest
      exact ⟨k, ks, hk, ih.mp hks, rfl⟩
    · rintro ⟨k, ks, hk, hks, rfl⟩
      exact ⟨k, hk, Option.map_eq_some_iff.mpr ⟨ks, ih.mpr hks, rfl⟩⟩

/-- One expression without a position, and there are none. -/
theorem locateAll_eq_none (hmem : target ∈ targets) (h : locate C T digit names target = none) :
    locateAll C T digit names targets = none := by
  rw [Option.eq_none_iff_forall_ne_some]
  intro positions hsome
  obtain ⟨k, hk⟩ := exists_of_mem_of_forall₂ (locateAll_eq_some_iff.mp hsome) hmem
  rw [h] at hk
  cases hk

/-- All expressions have a position, and so has the loop. -/
theorem exists_locateAll (h : ∀ target ∈ targets, locate C T digit names target ≠ none) :
    ∃ positions, locateAll C T digit names targets = some positions := by
  induction targets with
  | nil => exact ⟨[], rfl⟩
  | cons target rest ih =>
    obtain ⟨k, hk⟩ := Option.ne_none_iff_exists'.mp (h target List.mem_cons_self)
    obtain ⟨ks, hks⟩ := ih fun t ht => h t (List.mem_cons_of_mem _ ht)
    exact ⟨k :: ks, by rw [locateAll, hk, hks]; rfl⟩

/-- A column is looked for by its bare name. -/
theorem findIdx?_answersTo_eq_some_iff :
    (items.map (answersTo C)).findIdx? (·.contains name) = some k ↔ FirstToAnswer C items name k := by
  rw [List.findIdx?_eq_some_iff_getElem]
  constructor
  · rintro ⟨hk, hanswers, hfirst⟩
    rw [List.length_map] at hk
    refine ⟨⟨items[k], List.getElem?_eq_getElem hk, by simpa using hanswers⟩, fun j hj item hitem => ?_⟩
    obtain ⟨hlt, rfl⟩ := List.getElem?_eq_some_iff.mp hitem
    simpa using hfirst j hj
  · rintro ⟨⟨item, hitem, hanswers⟩, hfirst⟩
    obtain ⟨hk, rfl⟩ := List.getElem?_eq_some_iff.mp hitem
    refine ⟨by simpa using hk, by simpa using hanswers, fun j hj => ?_⟩
    simpa using hfirst j hj _ (List.getElem?_eq_getElem (hj.trans hk))

/-- Only one is the first. -/
theorem FirstToAnswer.unique {i : ℕ} (hi : FirstToAnswer C items name i) (hk : FirstToAnswer C items name k) :
    i = k := by
  obtain ⟨itemI, hitemI, hanswersI⟩ := hi.answers
  obtain ⟨itemK, hitemK, hanswersK⟩ := hk.answers
  have hki : ¬ k < i := fun hlt => hi.first k hlt itemK hitemK hanswersK
  have hik : ¬ i < k := fun hlt => hk.first i hlt itemI hitemI hanswersI
  omega

/-- **Nowhere to be found**: the expressions without a position. -/
theorem locate_eq_none_iff :
    locate C T digit (items.map (answersTo C)) target = none ↔ Unlocatable C T digit items target := by
  unfold locate
  split
  · rename_i text hcls
    have hnone : (ordinalOf T digit text).bind (fun n =>
        if 0 < n ∧ n - 1 < (items.map (answersTo C)).length then some (n - 1) else none) = none ↔
        ∀ i < items.length, ordinalOf T digit text ≠ some (i + 1) := by
      rw [Option.bind_eq_none_iff, List.length_map]
      constructor
      · intro h i hi hsome
        have hin := h _ hsome
        rw [if_pos ⟨Nat.succ_pos i, by simpa using hi⟩] at hin
        cases hin
      · intro h n hn
        refine if_neg fun hin => h (n - 1) hin.2 ?_
        rw [hn, Nat.sub_add_cancel hin.1]
    rw [hnone]
    constructor
    · intro h
      refine ⟨fun text' hcls' => ?_, fun hcolumn => ?_⟩
      · rw [hcls] at hcls'
        cases hcls'
        exact h
      · rw [hcls] at hcolumn
        cases hcolumn
    · exact fun h => h.ordinal text hcls
  · rename_i hcls
    rw [List.findIdx?_eq_none_iff, List.forall_mem_map]
    constructor
    · intro h
      refine ⟨fun text hliteral => ?_, fun _ item hitem => by simpa using h item hitem⟩
      rw [hcls] at hliteral
      cases hliteral
    · exact fun h item hitem => by simpa using h.column hcls item hitem
  · rename_i hliteral hcolumn
    exact iff_of_true rfl ⟨fun text h => absurd h (hliteral text), fun h => absurd h hcolumn⟩

/-- An expression with a position denotes it, unless it is a shadowed column. -/
theorem denotesItem_iff_of_locate (h : locate C T digit (items.map (answersTo C)) target = some k) :
    DenotesItem C T digit items target k ↔ (target.cls = .column → Unshadowed C T digit items target) := by
  unfold locate at h
  split at h
  · rename_i text hcls
    obtain ⟨n, hn, hin⟩ := Option.bind_eq_some_iff.mp h
    split at hin
    · rename_i hbound
      cases hin
      refine iff_of_true (.ordinal text hcls ?_ (by simpa using hbound.2)) fun hcolumn => ?_
      · rw [hn, Nat.sub_add_cancel hbound.1]
      · rw [hcls] at hcolumn
        cases hcolumn
    · cases hin
  · rename_i hcls
    have hfirst := findIdx?_answersTo_eq_some_iff.mp h
    constructor
    · exact fun hdenotes _ => ⟨k, hdenotes, hfirst⟩
    · intro hunshadowed
      obtain ⟨i, hdenotes, hi⟩ := hunshadowed hcls
      rwa [← hi.unique hfirst]
  · cases h

theorem forall₂_denotesItem_iff
    (h : List.Forall₂ (fun target k => locate C T digit (items.map (answersTo C)) target = some k)
      targets positions) :
    List.Forall₂ (DenotesItem C T digit items) targets positions ↔
      ∀ target ∈ targets, target.cls = .column → Unshadowed C T digit items target := by
  induction h with
  | nil => exact iff_of_true .nil fun _ h => absurd h List.not_mem_nil
  | cons hhead _ ih =>
    rw [List.forall₂_cons, List.forall_mem_cons, ih, denotesItem_iff_of_locate hhead]

/-- Where every position is denoted, an expression that denotes nothing leaves no positions. -/
theorem keysDenoted_iff {keys : Option (List ℕ)} :
    KeysDenoted C T digit tree order keys ↔ ∀ positions, keys = some positions →
      List.Forall₂ (DenotesItem C T digit (tree.slot .expressions)) (orderTargets order) positions := by
  refine ⟨KeysDenoted.denoted, fun h => ⟨h, fun target hmem hnothing => ?_⟩⟩
  rw [Option.eq_none_iff_forall_ne_some]
  intro positions hsome
  obtain ⟨k, hk⟩ := exists_of_mem_of_forall₂ (h positions hsome) hmem
  exact hnothing k hk

theorem referenceOrdering_of_ordered (h : OrderedReference tree order) (hsql : parse sql = some tree) :
    referenceOrdering C T digit parse sql = (true, (projectionNames C (tree.slot .expressions)).bind fun names =>
      locateAll C T digit names (orderTargets order)) := by
  have hcut : ¬ ((tree.arg .limit).isNone && (tree.arg .offset).isNone &&
      (tree.arg (.other "fetch")).isNone) = true := by
    rw [Bool.and_eq_true, Bool.and_eq_true]
    simp only [Option.isNone_iff_eq_none]
    rintro ⟨⟨hlimit, hoffset⟩, hfetch⟩
    have hone := h.cut
    simp [hlimit, hoffset, hfetch] at hone
  simp only [referenceOrdering, hsql, h.select, h.order, if_neg hcut, ne_eq, not_true_eq_false, if_false]

/-- **When the order is the one asked for**: an `ORDER BY` without positions, or one whose columns each denote
the first selected one that answers to their bare name. -/
theorem referenceOrdering_exact_iff (h : OrderedReference tree order) (hsql : parse sql = some tree) :
    KeysDenoted C T digit tree order (referenceOrdering C T digit parse sql).2 ↔
      Unconfused C T digit tree order := by
  rw [referenceOrdering_of_ordered h hsql, keysDenoted_iff, Unconfused]
  by_cases hstar : ∃ item ∈ tree.slot .expressions, isStarItem item = true
  · refine iff_of_true (fun positions hsome => ?_) (.inl hstar)
    rw [projectionNames, if_pos (List.any_eq_true.mpr hstar)] at hsome
    cases hsome
  · have hnames : projectionNames C (tree.slot .expressions) = some ((tree.slot .expressions).map (answersTo C)) :=
      if_neg fun hany => hstar (List.any_eq_true.mp hany)
    simp only [hnames, Option.bind_some, hstar, false_or]
    by_cases hlost : ∃ target ∈ orderTargets order, Unlocatable C T digit (tree.slot .expressions) target
    · obtain ⟨target, hmem, hunlocatable⟩ := hlost
      refine iff_of_true (fun positions hsome => ?_) (.inl ⟨target, hmem, hunlocatable⟩)
      rw [locateAll_eq_none hmem (locate_eq_none_iff.mpr hunlocatable)] at hsome
      cases hsome
    · have hall : ∀ target ∈ orderTargets order,
          locate C T digit ((tree.slot .expressions).map (answersTo C)) target ≠ none :=
        fun target hmem hnone => hlost ⟨target, hmem, locate_eq_none_iff.mp hnone⟩
      obtain ⟨found, hfound⟩ := exists_locateAll hall
      rw [hfound, or_iff_right hlost]
      simp only [Option.some.injEq, forall_eq']
      exact forall₂_denotesItem_iff (locateAll_eq_some_iff.mp hfound)

end Verdict

/-! ## A name of two tables -/

/-- The value of a decimal digit. -/
def digitValue (c : Char) : ℕ := c.toNat - 48

/-- `ORDER BY ⟨key⟩`. -/
def orderClause (key : Expr) : Expr :=
  .ofCls .order [(.expressions, .ofCls (.ordered false) [(.this, key)])]

/-- `SELECT TOP 5 a.ID, b.ID FROM a JOIN b ON a.ID = b.ParentID ORDER BY ⟨key⟩`. -/
def twoIds (key : Expr) : Expr :=
  .ofCls .select [(.limit, .ofCls .limit [(.expression, .ofCls (.literal "5" false))]),
    (.expressions, .columnRef "a" "ID"), (.expressions, .columnRef "b" "ID"),
    (.from_, .ofCls .fromClause [(.this, .tableRef "" "a" "")]),
    (.joins, .joinOn (.tableRef "" "b" "") (.equals (.columnRef "a" "ID") (.columnRef "b" "ParentID"))),
    (.order, orderClause key)]

theorem twoIds_ordered (key : Expr) : OrderedReference (twoIds key) (orderClause key) where
  select := rfl
  order := rfl
  cut := .inl rfl

/-- Ordered by the first of the two, the position is right. -/
theorem referenceOrdering_exact_firstId :
    KeysDenoted asciiCase .ascii digitValue (twoIds (.columnRef "a" "ID")) (orderClause (.columnRef "a" "ID"))
      (referenceOrdering asciiCase .ascii digitValue (fun _ => some (twoIds (.columnRef "a" "ID"))) "").2 := by
  refine (referenceOrdering_exact_iff (twoIds_ordered _) rfl).mpr (.inr (.inr fun target hmem _ => ?_))
  rw [List.mem_singleton.mp (show target ∈ [Expr.columnRef "a" "ID"] from hmem)]
  refine ⟨0, .column (.columnRef "a" "ID") (.columnRef "a" "ID") rfl (fun h => absurd h (by decide)) rfl rfl
    ⟨rfl, .inr (.inr rfl), .inl rfl, .inl rfl⟩, ⟨.columnRef "a" "ID", rfl, by decide⟩, fun j hj => ?_⟩
  exact absurd hj (Nat.not_lt_zero j)

/-- Ordered by the second, it is the first's. -/
theorem secondId_taken_for_first :
    ¬ ∀ (parse : String → Option Expr) (sql : String) (tree order : Expr), OrderedReference tree order →
      parse sql = some tree →
      KeysDenoted asciiCase .ascii digitValue tree order
        (referenceOrdering asciiCase .ascii digitValue parse sql).2 := by
  intro h
  have hkeys := h (fun _ => some (twoIds (.columnRef "b" "ID"))) "" _ _ (twoIds_ordered _) rfl
  have hfirst : (referenceOrdering asciiCase .ascii digitValue
      (fun _ => some (twoIds (.columnRef "b" "ID"))) "").2 = some [0] := by decide
  cases hkeys.denoted [0] hfirst with
  | cons hdenotes _ =>
    cases hdenotes with
    | ordinal text literal => cases literal
    | outputAlias item column bare => exact absurd bare (by decide)
    | column item c column noAlias selected isColumn same =>
      cases selected
      cases isColumn
      exact absurd same.table (by decide)

end LocalSqlAgent
