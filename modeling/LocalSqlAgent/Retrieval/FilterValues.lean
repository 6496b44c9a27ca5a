import Mathlib.Algebra.Order.Ring.Rat
import Mathlib.Data.Finset.Card
import Mathlib.Data.Finset.Lattice.Basic
import Mathlib.Data.Prod.Lex
import Mathlib.Data.String.Basic
import LocalSqlAgent.Lib.Leading
import LocalSqlAgent.PromptEngine.Untrusted
import LocalSqlAgent.Retrieval.DimensionVocabulary
import LocalSqlAgent.Security.ColumnOrigins
import LocalSqlAgent.Sql.Scope

/-! # The filter value check

`retrieval.filter_values`: the string literals a statement compares columns with are looked up in the cached
values of those columns; a literal none of them is goes back to the model with the nearest values there are.
The values come from the same cache as the dimension vocabulary, which holds the columns of everybody.

* **`checkFilterValues`**, **`correctionText`**: the check and the message.
* **`checkFilterValues_insensitive`**: the cached values of columns the guard refuses to the caller have no
  influence on the check.
* **`Judgeable`**, **`AbsentValue`**: a literal that can be judged, and one that no value is.
* **`checkFilterValues_exact`**: every judgeable literal is judged, once, and exactly the absent ones are
  reported, with the values that come first by similarity. -/

namespace LocalSqlAgent

/-! ## Comparisons with literals -/

/-- `exp.Paren`. -/
def Cls.isParen : Cls → Bool
  | .paren => true
  | _ => false

mutual

/-- The occurrence inside the parentheses around a node below some frames. -/
def unparenBelow (frames : List (Frame NodeLabel Arg)) : Expr → Option ExprOcc
  | .node l args =>
    if l.cls.isParen then unparenThis (.node l args) frames [] args else some ⟨.node l args, frames⟩

/-- The occurrence inside the first child under `this`. -/
def unparenThis (parent : Expr) (frames : List (Frame NodeLabel Arg)) (before : List (Arg × Expr)) :
    List (Arg × Expr) → Option ExprOcc
  | [] => none
  | (k, c) :: rest =>
    if k = .this then unparenBelow (⟨parent, k, before⟩ :: frames) c
    else unparenThis parent frames (before ++ [(k, c)]) rest

end

/-- `_unparen`. -/
def unparen (node : Option ExprOcc) : Option ExprOcc := node.bind fun o => unparenBelow o.frames o.node

/-- The text of a string literal. -/
def stringText (node : Expr) : Option String :=
  match node.cls with
  | .literal text true => some text
  | _ => none

/-- `_literal_text` of a node without parentheses: a string literal, or the literal behind an `N`. -/
def literalText (node : Expr) : Option String :=
  if node.cls = .national then (node.arg .this).bind stringText else stringText node

/-- A column compared with literals. -/
structure LiteralComparison where
  /-- The column. -/
  column : ExprOcc
  /-- The literals and their texts. -/
  literals : List (ExprOcc × String)
  /-- `=`, `<>`, `IN` or `NOT IN`. -/
  operator : String

/-- `exp.EQ`, `exp.NEQ` and `exp.In`. -/
def comparisonClasses : List Cls := [.eq, .other "NEQ", .other "In"]

/-- The column of a comparison, what it is compared with, and how. -/
def comparisonSides (o : ExprOcc) : Option (ExprOcc × List ExprOcc × String) :=
  let left := unparen (childrenAt .this o).head?
  if o.node.cls = .other "In" then
    (left.filter (·.node.cls.isColumn)).map fun column =>
      (column, (childrenAt .expressions o).filterMap fun e => unparen (some e),
        if o.parent?.any (·.node.cls = .not) then "NOT IN" else "IN")
  else
    let right := unparen (childrenAt .expression o).head?
    let operator := if o.node.cls = .eq then "=" else "<>"
    match left.filter (·.node.cls.isColumn), right.filter (·.node.cls.isColumn) with
    | some column, _ => some (column, right.toList, operator)
    | none, some column => some (column, left.toList, operator)
    | none, none => none

/-- **`comparison_literals`**. -/
def comparisonLiterals (tree : Expr) : List LiteralComparison :=
  ((preorder tree).filter (·.node.cls ∈ comparisonClasses)).filterMap fun o =>
    (comparisonSides o).bind fun (column, nodes, operator) =>
      let literals := nodes.filterMap fun n => (literalText n.node).map fun text => (n, text)
      if literals = [] then none else some ⟨column, literals, operator⟩

/-- `column_origins(column, tree)`. -/
def originsAt (S : Schema) (tree : Expr) (column : ExprOcc) : List ColumnOrigin :=
  columnOrigins S tree ((enclosingSelects column).map (·.node)) column.node

/-- `StringComparison`. -/
structure StringComparison where
  /-- The stored columns the compared column reads. -/
  origins : List ColumnOrigin
  /-- The literal. -/
  value : String
  /-- `=`, `<>`, `IN` or `NOT IN`. -/
  operator : String
  deriving DecidableEq

/-- `string_comparisons` of a parsed statement; a text that does not parse has none. -/
def stringComparisons (S : Schema) : Option Expr → List StringComparison
  | none => []
  | some tree => (comparisonLiterals tree).flatMap fun c =>
      c.literals.map fun l => ⟨originsAt S tree c.column, l.2, c.operator⟩

/-! ## The nearest values -/

/-- `NEAREST_LIMIT`. -/
def nearestLimit : ℕ := 5

/-- `_trigrams`. -/
def trigrams (text : String) : Finset (List Char) :=
  let padded := "  ".toList ++ text.toList ++ " ".toList
  ((List.range (padded.length - 2)).map fun i => (padded.drop i).take 3).toFinset

/-- The similarity of two normalised texts. As a fraction: two of these with different values differ as
floating-point numbers in the same way. -/
def similarity (a b : String) : ℚ := (trigrams a ∩ trigrams b).card / (trigrams a ∪ trigrams b).card

/-- `_MIN_SIMILARITY`. -/
def minSimilarity : ℚ := 3 / 20

/-- The key values are sorted by: the greatest similarity first, then by their texts. -/
abbrev NearnessKey := ℚ ×ₗ String ×ₗ String

/-- The key of a value. -/
def nearnessKey (normalize : String → String) (value candidate : String) : NearnessKey :=
  toLex (-similarity (normalize value) (normalize candidate), toLex (normalize candidate, candidate))

/-- The values similar enough. -/
def similarValues (normalize : String → String) (value : String) (vocabulary : List String) : List String :=
  vocabulary.eraseDups.filter fun c => minSimilarity ≤ similarity (normalize value) (normalize c)

/-- **`nearest_values`.** -/
def nearestValues (normalize : String → String) (value : String) (vocabulary : List String) (limit : ℕ) :
    List String :=
  leading (nearnessKey normalize value) limit (similarValues normalize value vocabulary)

/-! ## The check -/

/-- `UnknownValue`. -/
structure UnknownValue where
  /-- The columns it was compared with. -/
  columns : List String
  /-- The literal. -/
  value : String
  /-- The nearest values there are. -/
  nearest : List String
  /-- Some values there are, where none is near. -/
  sample : List String
  deriving DecidableEq

/-- `ValueCheck`. -/
structure ValueCheck where
  /-- How many literals could be judged. -/
  checked : ℕ := 0
  /-- The ones that no value is. -/
  unknown : List UnknownValue := []
  deriving DecidableEq

/-- A column with its values. -/
abbrev ColumnVocabulary := String × String × List String

section Check

variable (E : GuardEnv) (V : VocabularyConfig) (topN : ℕ) (cache : VocabularyCache)

/-- `_configured_column`. -/
def configuredColumn (table columnLower : String) : Option String :=
  ((V.prefetchColumns table).getD []).find? fun c => E.schema.case.lower c = columnLower

/-- `_usable_vocabulary`: a list that is empty, or so long that it may have been cut, is of no use. -/
def usableVocabulary (table column : String) : Option (List String) :=
  ((cache table column).map (·.1)).filter fun values => values ≠ [] ∧ values.length < topN

/-- A configured column whose values may be shown. -/
def showableColumn (policy : ColumnPolicy) (restrictions : JoinOnlyRestrictions) (o : ColumnOrigin) : Option String :=
  (configuredColumn E V o.1 o.2).filter fun c => E.schema.case.upper c ∉ policy.denied ∧
    o.2 ∉ (restrictions.columnsOf o.1).map (·.1)

/-- The values of one column. -/
def originVocabulary (policy : ColumnPolicy) (restrictions : JoinOnlyRestrictions) (o : ColumnOrigin) :
    Option ColumnVocabulary :=
  (showableColumn E V policy restrictions o).bind fun column =>
    (usableVocabulary topN cache o.1 column).map fun values => (o.1, column, values)

/-- `usable_vocabularies`: the values of every column, or of none. -/
def usableVocabularies (policy : ColumnPolicy) (restrictions : JoinOnlyRestrictions) (origins : List ColumnOrigin) :
    List ColumnVocabulary :=
  (origins.mapM (originVocabulary E V topN cache policy restrictions)).getD []

/-- The values of some columns. -/
def poolOf (vocabularies : List ColumnVocabulary) : List String := vocabularies.flatMap fun v => v.2.2

/-- What is reported of a literal that no value is. -/
def unknownValue (limit : ℕ) (value : String) (vocabularies : List ColumnVocabulary) : UnknownValue :=
  let pool := poolOf vocabularies
  let nearest := nearestValues V.normalize value pool limit
  { columns := vocabularies.map fun v => v.1 ++ "." ++ v.2.1
    value
    nearest
    sample := if nearest ≠ [] then [] else leading V.normalize limit pool.eraseDups }

/-- The loop of `check_filter_values`, the comparisons seen before first. -/
def checkFrom (usable : List ColumnOrigin → List ColumnVocabulary) (limit : ℕ) :
    List (List ColumnOrigin × String) → List StringComparison → ValueCheck
  | _, [] => {}
  | seen, c :: rest =>
    let key := (c.origins, V.normalize c.value)
    if c.origins = [] ∨ key.2 = "" ∨ key ∈ seen then checkFrom usable limit seen rest
    else
      let later := checkFrom usable limit (key :: seen) rest
      match usable c.origins with
      | [] => later
      | vocabularies =>
        { checked := later.checked + 1
          unknown := if (poolOf vocabularies).any fun v => V.normalize v = key.2 then later.unknown
            else unknownValue V limit c.value vocabularies :: later.unknown }

/-- **`check_filter_values`** for the caller's entries; entries that cannot be read check nothing. -/
def checkFilterValues (entries : List String) (limit : ℕ) (tree : Option Expr) : ValueCheck :=
  match readPolicy E entries with
  | .error _ => {}
  | .ok (policy, restrictions) =>
    checkFrom V (usableVocabularies E V topN cache policy restrictions) limit [] (stringComparisons E.schema tree)

end Check

/-! ## What is made of a check -/

/-- `_QUOTED_MAX`. -/
def quotedMax : ℕ := 120

/-- `_quoted`. -/
def quotedValue (text : String) : String :=
  let oneLine := joinStrings " " (splitWords text)
  let shown := if oneLine.length ≤ quotedMax then oneLine
    else String.ofList (oneLine.toList.take (quotedMax - 3)) ++ "..."
  "'" ++ replaceString shown "'" "''" ++ "'"

/-- The lines of the values there are. -/
def offeredLines (u : UnknownValue) : List String :=
  let columns := joinStrings ", " u.columns
  if u.nearest ≠ [] then
    [columns ++ ", nearest to " ++ quotedValue u.value ++ ": " ++ joinStrings ", " u.nearest]
  else if u.sample ≠ [] then
    [columns ++ ", no value is similar to " ++ quotedValue u.value ++ "; values that exist include: " ++
      joinStrings ", " u.sample]
  else []

/-- **`correction_text`**: what the model is told, the values there are in the fence. -/
def correctionText (sql : String) (check : ValueCheck) : String :=
  let problems := check.unknown.map fun u =>
    joinStrings ", " u.columns ++ ": the value " ++ quotedValue u.value ++ " does not exist in this column."
  let offered := check.unknown.flatMap offeredLines
  joinStrings "\n" (["The SQL query you wrote filters on a value that does not exist.", "", "--- SQL ---", sql, "",
      "--- VALUES THAT DO NOT EXIST ---"] ++ problems ++
    (if offered = [] then []
      else ["", "--- REAL VALUES ---", untrustedInstruction, fenceUntrusted (joinStrings "\n" offered)]) ++
    ["", "--- INSTRUCTIONS ---",
      "For each value above: if the question names a specific value of that column, use the real " ++
      "value it means, written exactly as listed; the list was read a little while ago, so if the " ++
      "question names a value that is not listed, keep it as you wrote it. If the question does not " ++
      "name a specific value of this column, remove this filter. Do not change anything else about " ++
      "the query. Return only the corrected SQL statement.", "", "SQL:", ""])

/-! ## What the caller may not see -/

section Insensitive

variable {E : GuardEnv} {V : VocabularyConfig} {topN : ℕ} {entries : List String} {policy : ColumnPolicy}
  {restrictions : JoinOnlyRestrictions}

theorem showableColumn_some {o : ColumnOrigin} {column : String}
    (h : showableColumn E V policy restrictions o = some column) :
    PrefetchColumn V o.1 column ∧ E.schema.case.lower column = o.2 ∧ E.schema.case.upper column ∉ policy.denied ∧
      o.2 ∉ (restrictions.columnsOf o.1).map (·.1) := by
  obtain ⟨hconfigured, hshown⟩ := Option.filter_eq_some_iff.mp h
  obtain ⟨hdenied, hrestricted⟩ := of_decide_eq_true hshown
  have hlower := List.find?_some hconfigured
  have hmem := List.mem_of_find?_eq_some hconfigured
  refine ⟨?_, of_decide_eq_true hlower, hdenied, hrestricted⟩
  cases hcolumns : V.prefetchColumns o.1 with
  | none =>
    rw [hcolumns] at hmem
    cases hmem
  | some columns =>
    rw [hcolumns] at hmem
    exact ⟨columns, hcolumns, hmem⟩

/-- **A column whose values may be shown is not refused**, when its name folds to its lower case. -/
theorem not_refuses_of_showable (hpolicy : readPolicy E entries = .ok (policy, restrictions)) {o : ColumnOrigin}
    {column : String} (hfold : E.schema.case.casefold column = E.schema.case.lower column)
    (h : showableColumn E V policy restrictions o = some column) : ¬ RefusesColumn E entries o.1 column := by
  obtain ⟨-, hlower, hdenied, hrestricted⟩ := showableColumn_some h
  rw [RefusesColumn, hpolicy]
  rintro (hin | hlookup)
  · exact hdenied hin
  · rw [hfold, hlower] at hlookup
    obtain ⟨entry, hentry, heq⟩ := List.lookup_isSome_iff.mp hlookup
    exact hrestricted (List.mem_map.mpr ⟨entry, hentry, (beq_iff_eq.mp heq).symm⟩)

theorem originVocabulary_congr (hpolicy : readPolicy E entries = .ok (policy, restrictions))
    (hfold : ∀ table column, PrefetchColumn V table column →
      E.schema.case.casefold column = E.schema.case.lower column)
    {cache cache' : VocabularyCache}
    (hagree : ∀ table column, ¬ RefusesColumn E entries table column → cache table column = cache' table column)
    (o : ColumnOrigin) : originVocabulary E V topN cache policy restrictions o =
      originVocabulary E V topN cache' policy restrictions o := by
  unfold originVocabulary
  cases hshow : showableColumn E V policy restrictions o with
  | none => rfl
  | some column =>
    have hseen := not_refuses_of_showable hpolicy (hfold _ _ (showableColumn_some hshow).1) hshow
    rw [Option.bind_some, Option.bind_some, usableVocabulary, usableVocabulary, hagree o.1 column hseen]

end Insensitive

/-- **The check and the message do not depend on refused columns**: whatever the cache holds of the columns
the guard refuses to the caller, a statement is judged alike and the model is told the same, when the names
of the configured columns fold to their lower case. -/
theorem checkFilterValues_insensitive {E : GuardEnv} {V : VocabularyConfig} {entries : List String}
    (hfold : ∀ table column, PrefetchColumn V table column →
      E.schema.case.casefold column = E.schema.case.lower column)
    {cache cache' : VocabularyCache}
    (hagree : ∀ table column, ¬ RefusesColumn E entries table column → cache table column = cache' table column)
    (topN limit : ℕ) (tree : Option Expr) (sql : String) :
    checkFilterValues E V topN cache entries limit tree = checkFilterValues E V topN cache' entries limit tree ∧
      correctionText sql (checkFilterValues E V topN cache entries limit tree) =
        correctionText sql (checkFilterValues E V topN cache' entries limit tree) := by
  have hsame : checkFilterValues E V topN cache entries limit tree =
      checkFilterValues E V topN cache' entries limit tree := by
    unfold checkFilterValues
    cases hpolicy : readPolicy E entries with
    | error message => rfl
    | ok read =>
      obtain ⟨policy, restrictions⟩ := read
      have husable : usableVocabularies E V topN cache policy restrictions =
          usableVocabularies E V topN cache' policy restrictions := by
        funext origins
        unfold usableVocabularies
        rw [funext (originVocabulary_congr hpolicy hfold hagree)]
      dsimp only
      rw [husable]
  exact ⟨hsame, by rw [hsame]⟩

/-! ## What is reported -/

section Exact

variable (E : GuardEnv) (V : VocabularyConfig) (topN : ℕ) (cache : VocabularyCache) (policy : ColumnPolicy)
  (restrictions : JoinOnlyRestrictions)

/-- The values the caller may be shown of a stored column: `values` are all there are, as far as the cache
knows. -/
def HasValues (o : ColumnOrigin) (values : List String) : Prop :=
  ∃ column fresh, showableColumn E V policy restrictions o = some column ∧
    cache o.1 column = some (values, fresh) ∧ values ≠ [] ∧ values.length < topN

/-- **A literal that can be judged**: its column reads stored columns only whose values are known. -/
structure Judgeable (c : StringComparison) : Prop where
  /-- Of a stored column. -/
  stored : c.origins ≠ []
  /-- Not blank. -/
  text : V.normalize c.value ≠ ""
  /-- All values are known. -/
  known : ∀ o ∈ c.origins, ∃ values, HasValues E V topN cache policy restrictions o values

/-- **A literal that no value is**, however spelled. -/
def AbsentValue (c : StringComparison) : Prop :=
  ∀ o ∈ c.origins, ∀ values, HasValues E V topN cache policy restrictions o values →
    ∀ v ∈ values, V.normalize v ≠ V.normalize c.value

/-- The values a literal could have been. -/
def CandidateValue (c : StringComparison) (v : String) : Prop :=
  ∃ o ∈ c.origins, ∃ values, HasValues E V topN cache policy restrictions o values ∧ v ∈ values

/-- What is compared of two comparisons: the columns and the spelling-free text. -/
def StringComparison.key (c : StringComparison) : List ColumnOrigin × String := (c.origins, V.normalize c.value)

/-- **The report of a literal**: the candidates similar to it, the nearest first, or else some candidates. -/
structure Reports (limit : ℕ) (c : StringComparison) (u : UnknownValue) : Prop where
  /-- The literal. -/
  value : u.value = c.value
  /-- The nearest of the similar candidates, each once. -/
  nearest : ∃ similar : List String, similar.Nodup ∧
    (∀ v, v ∈ similar ↔ CandidateValue E V topN cache policy restrictions c v ∧
      minSimilarity ≤ similarity (V.normalize c.value) (V.normalize v)) ∧
    Leads (nearnessKey V.normalize c.value) limit similar u.nearest
  /-- The first of all candidates where none is near. -/
  sample : if u.nearest = [] then ∃ all : List String, all.Nodup ∧
      (∀ v, v ∈ all ↔ CandidateValue E V topN cache policy restrictions c v) ∧ Leads V.normalize limit all u.sample
    else u.sample = []

/-- **An exact check** of some comparisons: `judged` are the judgeable ones, each once, and what is reported
is, in their order, what is absent of them. -/
structure ExactCheck (limit : ℕ) (comparisons judged : List StringComparison) (check : ValueCheck) : Prop where
  /-- In the order of the statement. -/
  sublist : judged.Sublist comparisons
  /-- No literal is judged twice on the same columns. -/
  once : (judged.map (StringComparison.key V)).Nodup
  /-- Exactly the judgeable ones. -/
  judgeable : ∀ c ∈ comparisons, (∃ j ∈ judged, j.key V = c.key V) ↔ Judgeable E V topN cache policy restrictions c
  /-- They are counted. -/
  counted : check.checked = judged.length
  /-- Exactly the absent ones are reported. -/
  reported : ∃ absent : List StringComparison, absent.Sublist judged ∧
    (∀ c ∈ judged, c ∈ absent ↔ AbsentValue E V topN cache policy restrictions c) ∧
    List.Forall₂ (Reports E V topN cache policy restrictions limit) absent check.unknown

variable {E V topN cache policy restrictions}

theorem originVocabulary_eq_some {o : ColumnOrigin} {v : ColumnVocabulary} :
    originVocabulary E V topN cache policy restrictions o = some v ↔ v.1 = o.1 ∧
      showableColumn E V policy restrictions o = some v.2.1 ∧
      ∃ fresh, cache o.1 v.2.1 = some (v.2.2, fresh) ∧ v.2.2 ≠ [] ∧ v.2.2.length < topN := by
  obtain ⟨table, column, values⟩ := v
  unfold originVocabulary usableVocabulary
  rw [Option.bind_eq_some_iff]
  constructor
  · rintro ⟨c, hshow, h⟩
    obtain ⟨listed, hlisted, heq⟩ := Option.map_eq_some_iff.mp h
    obtain ⟨hcached, huse⟩ := Option.filter_eq_some_iff.mp hlisted
    obtain ⟨entry, hentry, rfl⟩ := Option.map_eq_some_iff.mp hcached
    cases heq
    exact ⟨rfl, hshow, entry.2, hentry, of_decide_eq_true huse⟩
  · rintro ⟨rfl, hshow, fresh, hentry, huse⟩
    refine ⟨column, hshow, Option.map_eq_some_iff.mpr ⟨values, Option.filter_eq_some_iff.mpr ⟨?_, ?_⟩, rfl⟩⟩
    · exact Option.map_eq_some_iff.mpr ⟨(values, fresh), hentry, rfl⟩
    · exact decide_eq_true huse

theorem hasValues_iff {o : ColumnOrigin} {values : List String} :
    HasValues E V topN cache policy restrictions o values ↔
      ∃ v, originVocabulary E V topN cache policy restrictions o = some v ∧ v.2.2 = values := by
  constructor
  · rintro ⟨column, fresh, hshow, hentry, huse⟩
    exact ⟨(o.1, column, values), originVocabulary_eq_some.mpr ⟨rfl, hshow, fresh, hentry, huse⟩, rfl⟩
  · rintro ⟨v, hv, rfl⟩
    obtain ⟨-, hshow, fresh, hentry, huse⟩ := originVocabulary_eq_some.mp hv
    exact ⟨v.2.1, fresh, hshow, hentry, huse⟩

theorem mem_of_mapM_eq_some {α β : Type} {f : α → Option β} {l : List α} {results : List β}
    (h : l.mapM f = some results) {b : β} : b ∈ results ↔ ∃ a ∈ l, f a = some b := by
  induction l generalizing results with
  | nil =>
    cases h
    simp
  | cons a rest ih =>
    rw [List.mapM_cons] at h
    obtain ⟨x, hx, h⟩ := Option.bind_eq_some_iff.mp h
    obtain ⟨xs, hxs, h⟩ := Option.bind_eq_some_iff.mp h
    cases h
    rw [List.mem_cons, ih hxs, List.exists_mem_cons_iff, hx, Option.some.injEq, @eq_comm _ b]

theorem mapM_eq_none_of_mem {α β : Type} {f : α → Option β} {l : List α} {a : α} (ha : a ∈ l) (h : f a = none) :
    l.mapM f = none := by
  induction l with
  | nil => cases ha
  | cons b rest ih =>
    rw [List.mapM_cons]
    rcases List.mem_cons.mp ha with rfl | ha
    · rw [h]
      rfl
    · rw [ih ha]
      cases f b <;> rfl

theorem exists_mapM_eq_some {α β : Type} {f : α → Option β} {l : List α} (h : ∀ a ∈ l, ∃ b, f a = some b) :
    ∃ results, l.mapM f = some results := by
  induction l with
  | nil => exact ⟨[], rfl⟩
  | cons a rest ih =>
    obtain ⟨b, hb⟩ := h a List.mem_cons_self
    obtain ⟨bs, hbs⟩ := ih fun c hc => h c (List.mem_cons_of_mem _ hc)
    refine ⟨b :: bs, ?_⟩
    rw [List.mapM_cons, hb, hbs]
    rfl

/-- What `usable_vocabularies` returns is the values of every column, unless it is nothing. -/
theorem mem_usableVocabularies {origins : List ColumnOrigin}
    (h : usableVocabularies E V topN cache policy restrictions origins ≠ []) :
    (∀ v, v ∈ usableVocabularies E V topN cache policy restrictions origins ↔
      ∃ o ∈ origins, originVocabulary E V topN cache policy restrictions o = some v) ∧
    ∀ o ∈ origins, ∃ v, originVocabulary E V topN cache policy restrictions o = some v := by
  unfold usableVocabularies at h ⊢
  cases hall : origins.mapM (originVocabulary E V topN cache policy restrictions) with
  | none =>
    rw [hall] at h
    exact absurd rfl h
  | some found =>
    refine ⟨fun v => mem_of_mapM_eq_some hall, fun o ho => ?_⟩
    cases hfound : originVocabulary E V topN cache policy restrictions o with
    | some v => exact ⟨v, rfl⟩
    | none =>
      have hfails : origins.mapM (originVocabulary E V topN cache policy restrictions) = none :=
        mapM_eq_none_of_mem ho hfound
      rw [hall] at hfails
      cases hfails

/-- **The values of some columns can be used** when all are known. -/
theorem usableVocabularies_ne_nil {origins : List ColumnOrigin} :
    usableVocabularies E V topN cache policy restrictions origins ≠ [] ↔
      origins ≠ [] ∧ ∀ o ∈ origins, ∃ values, HasValues E V topN cache policy restrictions o values := by
  constructor
  · intro h
    obtain ⟨hmem, hall⟩ := mem_usableVocabularies h
    refine ⟨?_, fun o ho => ?_⟩
    · rintro rfl
      exact h rfl
    · obtain ⟨v, hv⟩ := hall o ho
      exact ⟨v.2.2, hasValues_iff.mpr ⟨v, hv, rfl⟩⟩
  · rintro ⟨hne, hvalues⟩
    have hsome : ∀ o ∈ origins, ∃ v, originVocabulary E V topN cache policy restrictions o = some v := by
      intro o ho
      obtain ⟨values, h⟩ := hvalues o ho
      obtain ⟨v, hv, -⟩ := hasValues_iff.mp h
      exact ⟨v, hv⟩
    obtain ⟨found, hfound⟩ := exists_mapM_eq_some hsome
    obtain ⟨o, ho⟩ := List.exists_mem_of_ne_nil origins hne
    obtain ⟨v, hv⟩ := hsome o ho
    rw [usableVocabularies, hfound, Option.getD_some]
    exact List.ne_nil_of_mem ((mem_of_mapM_eq_some hfound).mpr ⟨o, ho, hv⟩)

/-- The values of usable columns are the candidates. -/
theorem mem_poolOf_iff {c : StringComparison} {v : String}
    (h : usableVocabularies E V topN cache policy restrictions c.origins ≠ []) :
    v ∈ poolOf (usableVocabularies E V topN cache policy restrictions c.origins) ↔
      CandidateValue E V topN cache policy restrictions c v := by
  obtain ⟨hmem, -⟩ := mem_usableVocabularies h
  unfold poolOf CandidateValue
  rw [List.mem_flatMap]
  constructor
  · rintro ⟨listed, hlisted, hv⟩
    obtain ⟨o, ho, hfound⟩ := (hmem listed).mp hlisted
    exact ⟨o, ho, listed.2.2, hasValues_iff.mpr ⟨listed, hfound, rfl⟩, hv⟩
  · rintro ⟨o, ho, values, hvalues, hv⟩
    obtain ⟨listed, hfound, rfl⟩ := hasValues_iff.mp hvalues
    exact ⟨listed, (hmem listed).mpr ⟨o, ho, hfound⟩, hv⟩

/-! ## The judged comparisons -/

section Judged

variable (usable : List ColumnOrigin → List ColumnVocabulary)

variable (V) in
/-- The comparisons the loop judges. -/
def judgedFrom : List (List ColumnOrigin × String) → List StringComparison → List StringComparison
  | _, [] => []
  | seen, c :: rest =>
    if c.origins = [] ∨ V.normalize c.value = "" ∨ c.key V ∈ seen then judgedFrom seen rest
    else if usable c.origins = [] then judgedFrom (c.key V :: seen) rest
    else c :: judgedFrom (c.key V :: seen) rest

variable (V) in
/-- The loop finds no value a comparison's literal is. -/
def misses (c : StringComparison) : Bool := !(poolOf (usable c.origins)).any fun v => V.normalize v = V.normalize c.value

variable {usable}

/-- **The loop counts the judged comparisons and reports the ones it misses.** -/
theorem checkFrom_eq (limit : ℕ) (seen : List (List ColumnOrigin × String)) (cs : List StringComparison) :
    checkFrom V usable limit seen cs =
      { checked := (judgedFrom V usable seen cs).length
        unknown := ((judgedFrom V usable seen cs).filter (misses V usable)).map fun c =>
          unknownValue V limit c.value (usable c.origins) } := by
  induction cs generalizing seen with
  | nil => rfl
  | cons c rest ih =>
    unfold checkFrom judgedFrom StringComparison.key
    dsimp only
    split
    · exact ih seen
    · rw [ih]
      cases hlisted : usable c.origins with
      | nil => rfl
      | cons v vs =>
        have hmiss : misses V usable c = !(poolOf (v :: vs)).any fun w => V.normalize w = V.normalize c.value := by
          rw [misses, hlisted]
        rw [if_neg (List.cons_ne_nil v vs), List.filter_cons, hmiss]
        cases hany : (poolOf (v :: vs)).any fun w => V.normalize w = V.normalize c.value with
        | true =>
          dsimp only
          rw [hany]
          rfl
        | false =>
          dsimp only
          rw [hany, ← hlisted]
          rfl

theorem judgedFrom_sublist (seen : List (List ColumnOrigin × String)) (cs : List StringComparison) :
    (judgedFrom V usable seen cs).Sublist cs := by
  induction cs generalizing seen with
  | nil => exact List.nil_sublist _
  | cons c rest ih =>
    unfold judgedFrom
    split
    · exact (ih seen).cons c
    · split
      · exact (ih _).cons c
      · exact (ih _).cons_cons c

theorem of_mem_judgedFrom {seen : List (List ColumnOrigin × String)} {cs : List StringComparison}
    {j : StringComparison} (hj : j ∈ judgedFrom V usable seen cs) :
    V.normalize j.value ≠ "" ∧ usable j.origins ≠ [] ∧ j.key V ∉ seen := by
  induction cs generalizing seen with
  | nil => cases hj
  | cons c rest ih =>
    unfold judgedFrom at hj
    split at hj
    · exact ih hj
    · rename_i hfresh
      obtain ⟨-, htext, hseen⟩ := (not_or.mp hfresh).imp_right not_or.mp
      split at hj
      · obtain ⟨htext', hne, hnot⟩ := ih hj
        exact ⟨htext', hne, fun h => hnot (List.mem_cons_of_mem _ h)⟩
      · rename_i hne
        rcases List.mem_cons.mp hj with rfl | hj
        · exact ⟨htext, hne, hseen⟩
        · obtain ⟨htext', hne', hnot⟩ := ih hj
          exact ⟨htext', hne', fun h => hnot (List.mem_cons_of_mem _ h)⟩

theorem judgedFrom_nodup (seen : List (List ColumnOrigin × String)) (cs : List StringComparison) :
    ((judgedFrom V usable seen cs).map (StringComparison.key V)).Nodup := by
  induction cs generalizing seen with
  | nil => exact List.nodup_nil
  | cons c rest ih =>
    unfold judgedFrom
    split
    · exact ih seen
    · split
      · exact ih _
      · rw [List.map_cons, List.nodup_cons]
        refine ⟨fun hmem => ?_, ih _⟩
        obtain ⟨j, hj, hkey⟩ := List.mem_map.mp hmem
        exact (of_mem_judgedFrom hj).2.2 (hkey ▸ List.mem_cons_self)

/-- Whatever can be judged is, at its first occurrence. -/
theorem exists_mem_judgedFrom {seen : List (List ColumnOrigin × String)} {cs : List StringComparison}
    {c : StringComparison} (hc : c ∈ cs) (hstored : c.origins ≠ []) (htext : V.normalize c.value ≠ "")
    (husable : usable c.origins ≠ []) (hseen : c.key V ∉ seen) :
    ∃ j ∈ judgedFrom V usable seen cs, j.key V = c.key V := by
  induction cs generalizing seen with
  | nil => cases hc
  | cons d rest ih =>
    unfold judgedFrom
    by_cases hkey : d.key V = c.key V
    · have horigins : d.origins = c.origins := congrArg Prod.fst hkey
      have hvalue : V.normalize d.value = V.normalize c.value := congrArg Prod.snd hkey
      have hfresh : ¬ (d.origins = [] ∨ V.normalize d.value = "" ∨ d.key V ∈ seen) := by
        rw [horigins, hvalue, hkey]
        exact not_or.mpr ⟨hstored, not_or.mpr ⟨htext, hseen⟩⟩
      rw [if_neg hfresh, if_neg (horigins ▸ husable)]
      exact ⟨d, List.mem_cons_self, hkey⟩
    · have hrest : c ∈ rest := (List.mem_cons.mp hc).resolve_left fun h => hkey (h ▸ rfl)
      have hseen' : c.key V ∉ d.key V :: seen := by
        rw [List.mem_cons, not_or]
        exact ⟨fun h => hkey h.symm, hseen⟩
      split
      · exact ih hrest hseen
      · split
        · exact ih hrest hseen'
        · obtain ⟨j, hj, heq⟩ := ih hrest hseen'
          exact ⟨j, List.mem_cons_of_mem _ hj, heq⟩

end Judged

theorem reports_unknownValue (limit : ℕ) {c : StringComparison}
    (h : usableVocabularies E V topN cache policy restrictions c.origins ≠ []) :
    Reports E V topN cache policy restrictions limit c
      (unknownValue V limit c.value (usableVocabularies E V topN cache policy restrictions c.origins)) := by
  have hpool := fun v => mem_poolOf_iff (v := v) h
  generalize hlisted : usableVocabularies E V topN cache policy restrictions c.origins = listed at hpool
  refine ⟨rfl, ⟨similarValues V.normalize c.value (poolOf listed), ?_, fun v => ?_, leads_leading _ _ _⟩, ?_⟩
  · exact (eraseDups_nodup _).filter _
  · rw [similarValues, List.mem_filter, List.mem_eraseDups, hpool, decide_eq_true_iff]
  · show if nearestValues V.normalize c.value (poolOf listed) limit = [] then _ else _
    split
    · rename_i hnone
      refine ⟨(poolOf listed).eraseDups, eraseDups_nodup _, fun v => ?_, ?_⟩
      · rw [List.mem_eraseDups, hpool]
      · show Leads _ _ _ (if nearestValues V.normalize c.value (poolOf listed) limit ≠ [] then [] else _)
        rw [if_neg (not_not.mpr hnone)]
        exact leads_leading _ _ _
    · rename_i hsome
      exact if_pos hsome

/-- **The check is exact**: every literal whose columns are stored ones with known values is judged, once, and
exactly the ones that no value is are reported, with the nearest values there are. -/
theorem checkFilterValues_exact {entries : List String} (hpolicy : readPolicy E entries = .ok (policy, restrictions))
    (limit : ℕ) (tree : Option Expr) :
    ∃ judged, ExactCheck E V topN cache policy restrictions limit (stringComparisons E.schema tree) judged
      (checkFilterValues E V topN cache entries limit tree) := by
  let usable := usableVocabularies E V topN cache policy restrictions
  let judged := judgedFrom V usable [] (stringComparisons E.schema tree)
  have hcheck : checkFilterValues E V topN cache entries limit tree =
      { checked := judged.length
        unknown := (judged.filter (misses V usable)).map fun c => unknownValue V limit c.value (usable c.origins) } := by
    rw [checkFilterValues, hpolicy]
    exact checkFrom_eq limit [] _
  have hjudgeable : ∀ c : StringComparison, Judgeable E V topN cache policy restrictions c ↔
      V.normalize c.value ≠ "" ∧ usable c.origins ≠ [] := by
    intro c
    have husable : usable c.origins ≠ [] ↔ _ := usableVocabularies_ne_nil
    rw [husable]
    exact ⟨fun h => ⟨h.text, h.stored, h.known⟩, fun h => ⟨h.2.1, h.1, h.2.2⟩⟩
  refine ⟨judged, judgedFrom_sublist _ _, judgedFrom_nodup _ _, fun c hc => ⟨?_, fun h => ?_⟩, ?_, ?_⟩
  · rintro ⟨j, hj, hkey⟩
    obtain ⟨htext, hne, -⟩ := of_mem_judgedFrom hj
    have horigins : j.origins = c.origins := congrArg Prod.fst hkey
    have hvalue : V.normalize j.value = V.normalize c.value := congrArg Prod.snd hkey
    exact (hjudgeable c).mpr ⟨hvalue ▸ htext, horigins ▸ hne⟩
  · obtain ⟨htext, hne⟩ := (hjudgeable c).mp h
    exact exists_mem_judgedFrom hc h.stored htext hne List.not_mem_nil
  · rw [hcheck]
  · refine ⟨judged.filter (misses V usable), List.filter_sublist, fun c hc => ?_, ?_⟩
    · obtain ⟨-, hne, -⟩ := of_mem_judgedFrom hc
      rw [List.mem_filter, and_iff_right hc, misses, Bool.not_eq_true', List.any_eq_false]
      constructor
      · intro hnone o ho values hvalues v hv heq
        exact hnone v ((mem_poolOf_iff hne).mpr ⟨o, ho, values, hvalues, hv⟩) (decide_eq_true heq)
      · intro habsent v hv heq
        obtain ⟨o, ho, values, hvalues, hmem⟩ := (mem_poolOf_iff hne).mp hv
        exact habsent o ho values hvalues v hmem (of_decide_eq_true heq)
    · rw [hcheck, List.forall₂_map_right_iff, List.forall₂_same]
      intro c hc
      exact reports_unknownValue limit (of_mem_judgedFrom (List.mem_of_mem_filter hc)).2.1

end Exact

/-! ## One statement -/

open Expr in
/-- `SELECT ID FROM sales.Customer WHERE Name = 'Acme'`. -/
def namedAcme : Expr := .ofCls .select
  [(.expressions, columnRef "" "ID"), (.from_, .ofCls .fromClause [(.this, tableRef "sales" "Customer" "")]),
    (.where_, .ofCls .whereClause [(.this, equals (columnRef "" "Name") (.ofCls (.literal "Acme" true)))])]

/-- No join-only column. -/
def unrestricted : JoinOnlyRestrictions where
  byTable := []
  entry_ne_empty := by simp

/-- The literal is judged, and no value is it. -/
example : (checkFilterValues salesEnv customerVocabulary 1000 acmeCached [] 5 (some namedAcme)).checked = 1 ∧
    (checkFilterValues salesEnv customerVocabulary 1000 acmeCached [] 5 (some namedAcme)).unknown.map (·.value) =
      ["Acme"] := ⟨rfl, rfl⟩

theorem foldsLower_customer (table column : String) (_ : PrefetchColumn customerVocabulary table column) :
    salesEnv.schema.case.casefold column = salesEnv.schema.case.lower column := rfl

/-- A caller who may not read the names learns nothing of the cached one. -/
theorem checkFilterValues_insensitive_name :
    checkFilterValues salesEnv customerVocabulary 1000 acmeCached ["Name"] 5 (some namedAcme) =
        checkFilterValues salesEnv customerVocabulary 1000 (fun _ _ => none) ["Name"] 5 (some namedAcme) ∧
      correctionText "" (checkFilterValues salesEnv customerVocabulary 1000 acmeCached ["Name"] 5 (some namedAcme)) =
        correctionText ""
          (checkFilterValues salesEnv customerVocabulary 1000 (fun _ _ => none) ["Name"] 5 (some namedAcme)) := by
  refine checkFilterValues_insensitive foldsLower_customer (fun table column hseen => ?_) 1000 5 _ _
  unfold acmeCached
  split
  · rename_i hname
    refine absurd ?_ hseen
    rw [hname.2]
    exact Or.inl (by decide)
  · rfl

/-- The report of the example is the exact one. -/
theorem checkFilterValues_exact_acme : ∃ judged, ExactCheck salesEnv customerVocabulary 1000 acmeCached {} unrestricted 5
    (stringComparisons salesSchema (some namedAcme)) judged
    (checkFilterValues salesEnv customerVocabulary 1000 acmeCached [] 5 (some namedAcme)) :=
  checkFilterValues_exact (show readPolicy salesEnv [] = .ok ({}, unrestricted) from rfl) 5 (some namedAcme)

end LocalSqlAgent
