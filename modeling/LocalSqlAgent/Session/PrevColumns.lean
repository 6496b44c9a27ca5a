import LocalSqlAgent.Session.PrevRows
import Mathlib.Data.List.Nodup

/-! # The column names of `_prev`

`_qualified_projection` names every column of every joined table `alias_column`, so that the CTE a
follow-up reads has no name twice. Two such names are one whenever the underscores can be read in two
ways.

* **`CaseFold`**: a comparison of names without case.
* **`prevColumns`**: the column names of the body the composer writes, its stars expanded.
* **`prevColumns_nodup_iff`**: they are pairwise distinct exactly when every source's names are and no
  two sources share one, stated on the aliases and the columns. -/

namespace LocalSqlAgent

/-! ## Names without case -/

/-- Two texts with a separator are one when they are split alike, or when one is split further on. -/
theorem append_cons_eq_append_cons_iff {α : Type*} {x : α} {a b a' b' : List α} :
    a ++ x :: b = a' ++ x :: b' ↔ (a = a' ∧ b = b') ∨ (∃ m, a' = a ++ x :: m ∧ b = m ++ x :: b') ∨
      ∃ m, a = a' ++ x :: m ∧ b' = m ++ x :: b := by
  constructor
  · intro h
    rcases List.append_eq_append_iff.mp h with ⟨m, ha, hb⟩ | ⟨m, ha, hb⟩
    · cases m with
      | nil => exact Or.inl ⟨by simpa using ha.symm, by simpa using hb⟩
      | cons y m =>
        cases hb
        exact Or.inr (Or.inl ⟨m, ha, rfl⟩)
    · cases m with
      | nil => exact Or.inl ⟨by simpa using ha, by simpa using hb.symm⟩
      | cons y m =>
        cases hb
        exact Or.inr (Or.inr ⟨m, ha, rfl⟩)
  · rintro (⟨rfl, rfl⟩ | ⟨m, rfl, rfl⟩ | ⟨m, rfl, rfl⟩)
    · rfl
    · rw [List.append_assoc, List.cons_append]
    · rw [List.append_assoc, List.cons_append]

/-- **A comparison without case**: characters are folded one by one, as `str.casefold` does, and the
underscore has no case. -/
structure CaseFold where
  char : Char → List Char
  underscore : char '_' = ['_']

namespace CaseFold

variable (F : CaseFold)

/-- A name without case. -/
def name (s : String) : List Char := s.toList.flatMap F.char

/-- The name `f"{alias}_{column}"`. -/
theorem name_joined (a c : String) : F.name (a ++ "_" ++ c) = F.name a ++ '_' :: F.name c := by
  have hunderscore : ("_" : String).toList = ['_'] := rfl
  rw [name, String.toList_append, String.toList_append, List.flatMap_append, List.flatMap_append,
    hunderscore, List.flatMap_singleton, F.underscore, List.append_assoc]
  rfl

end CaseFold

/-! ## The names of a source -/

/-- The names one source has in `_prev`. -/
inductive SourceNames where
  /-- A known table under its alias: `alias_column`. -/
  | prefixed (label : String) (columns : List String)
  /-- A star: the names it expands to. -/
  | starred (columns : List String)
  deriving DecidableEq, Repr

namespace SourceNames

/-- The columns behind the names. -/
def columns : SourceNames → List String
  | prefixed _ columns => columns
  | starred columns => columns

/-- The names. -/
def names : SourceNames → List String
  | prefixed label columns => columns.map fun c => label ++ "_" ++ c
  | starred columns => columns

variable (F : CaseFold)

/-- Two known tables have the same alias and a column of the same name. -/
def SharesColumn (label : String) (columns : List String) (label' : String)
    (columns' : List String) : Prop :=
  F.name label = F.name label' ∧ ∃ c ∈ columns, ∃ c' ∈ columns', F.name c = F.name c'

/-- The second alias is the first with an underscore and a text, and the first table has a column with
that text, an underscore and a column of the second. -/
def ReadsFurther (label : String) (columns : List String) (label' : String)
    (columns' : List String) : Prop :=
  ∃ m, F.name label' = F.name label ++ '_' :: m ∧
    ∃ c ∈ columns, ∃ c' ∈ columns', F.name c = m ++ '_' :: F.name c'

/-- **Two sources share no name**, by their aliases and columns. -/
def Apart : SourceNames → SourceNames → Prop
  | prefixed l cs, prefixed l' cs' =>
    ¬ SharesColumn F l cs l' cs' ∧ ¬ ReadsFurther F l cs l' cs' ∧ ¬ ReadsFurther F l' cs' l cs
  | prefixed l cs, starred xs => ∀ c ∈ cs, ∀ x ∈ xs, F.name x ≠ F.name l ++ '_' :: F.name c
  | starred xs, prefixed l cs => ∀ c ∈ cs, ∀ x ∈ xs, F.name x ≠ F.name l ++ '_' :: F.name c
  | starred xs, starred ys => ∀ x ∈ xs, ∀ y ∈ ys, F.name x ≠ F.name y

/-- **A source has no name twice**: its columns are distinct. -/
def Distinct (n : SourceNames) : Prop := (n.columns.map F.name).Nodup

theorem nodup_names_iff (n : SourceNames) : (n.names.map F.name).Nodup ↔ n.Distinct F := by
  cases n with
  | starred columns => rfl
  | prefixed label columns =>
    have hnames : (prefixed label columns).names.map F.name =
        (columns.map F.name).map fun c => F.name label ++ '_' :: c := by
      rw [names, List.map_map, List.map_map]
      exact List.map_congr_left fun c _ => F.name_joined label c
    rw [hnames, List.nodup_map_iff]
    · rfl
    · intro c c' h
      exact List.cons.inj (List.append_cancel_left h) |>.2

theorem disjoint_names_iff (n n' : SourceNames) :
    List.Disjoint (n.names.map F.name) (n'.names.map F.name) ↔ n.Apart F n' := by
  have hdisjoint : List.Disjoint (n.names.map F.name) (n'.names.map F.name) ↔
      ∀ x ∈ n.names, ∀ y ∈ n'.names, F.name x ≠ F.name y := by
    simp only [List.disjoint_iff_ne, List.forall_mem_map]
  rw [hdisjoint]
  cases n with
  | prefixed l cs =>
    cases n' with
    | prefixed l' cs' =>
      simp only [names, List.forall_mem_map, F.name_joined, ne_eq, append_cons_eq_append_cons_iff, Apart,
        SharesColumn, ReadsFurther]
      constructor
      · refine fun h => ⟨?_, ?_, ?_⟩
        · rintro ⟨hl, c, hc, c', hc', heq⟩
          exact h c hc c' hc' (Or.inl ⟨hl, heq⟩)
        · rintro ⟨m, hl, c, hc, c', hc', heq⟩
          exact h c hc c' hc' (Or.inr (Or.inl ⟨m, hl, heq⟩))
        · rintro ⟨m, hl, c', hc', c, hc, heq⟩
          exact h c hc c' hc' (Or.inr (Or.inr ⟨m, hl, heq⟩))
      · rintro ⟨hshares, hfurther, hfurther'⟩ c hc c' hc' (⟨hl, heq⟩ | ⟨m, hl, heq⟩ | ⟨m, hl, heq⟩)
        · exact hshares ⟨hl, c, hc, c', hc', heq⟩
        · exact hfurther ⟨m, hl, c, hc, c', hc', heq⟩
        · exact hfurther' ⟨m, hl, c', hc', c, hc, heq⟩
    | starred xs =>
      simp only [names, List.forall_mem_map, F.name_joined, Apart]
      exact forall₂_congr fun c _ => forall₂_congr fun x _ => not_congr eq_comm
  | starred xs =>
    cases n' with
    | prefixed l cs =>
      simp only [names, List.forall_mem_map, F.name_joined, Apart]
      exact ⟨fun h c hc x hx => h x hx c hc, fun h x hx c hc => h c hc x hx⟩
    | starred ys => rfl

/-- **No name twice among some sources.** -/
theorem nodup_flatMap_names_iff {l : List SourceNames} :
    ((l.flatMap names).map F.name).Nodup ↔ (∀ n ∈ l, n.Distinct F) ∧ l.Pairwise (Apart F) := by
  rw [List.map_flatMap, List.nodup_flatMap]
  refine and_congr ?_ ?_
  · exact forall₂_congr fun n _ => nodup_names_iff F n
  · exact ⟨fun h => h.imp fun hab => (disjoint_names_iff F _ _).mp hab,
      fun h => h.imp fun hab => (disjoint_names_iff F _ _).mpr hab⟩

end SourceNames

/-! ## The body's columns -/

namespace ComposerEnv

variable (C : ComposerEnv) (exposed : Expr → List String) (F : CaseFold) (ctes : List String)

/-- The column names a source has: a known table's from the catalogue, another source's as the database
exposes them. -/
def sourceColumns (source : Expr) : List String :=
  match sourceTable C.schema ctes source with
  | some t => t.columns
  | none => exposed source

/-- The columns the star of a label expands to, over some sources. -/
def labelColumns (sources : List Expr) (label : String) : List String :=
  (sources.filter fun s => F.name s.aliasOrName = F.name label).flatMap (C.sourceColumns exposed ctes)

/-- The column names one item of the select list has, over some sources. -/
def itemNames (sources : List Expr) (item : Expr) : List String :=
  match item.cls with
  | .alias => [item.aliasName]
  | .column => C.labelColumns exposed F ctes sources item.qualifier
  | _ => sources.flatMap (C.sourceColumns exposed ctes)

/-- **The column names of `_prev`** over a previous statement. -/
def prevColumns (prev : Expr) : List String :=
  ((C.stripTree prev).slot .expressions).flatMap
    (C.itemNames exposed F (cteNames C.schema.case (cleared prev)) (sources prev))

/-- The names of one source among some. -/
def namesOf (sources : List Expr) (source : Expr) : SourceNames :=
  if source.cls = .table then
    match resolveTableName C.schema ctes source with
    | none => .starred (C.labelColumns exposed F ctes sources source.aliasOrName)
    | some t => .prefixed source.aliasOrName t.columns
  else .starred (sources.flatMap (C.sourceColumns exposed ctes))

/-- The names of all the sources of a previous statement. -/
def prevNames (prev : Expr) : List SourceNames :=
  (sources prev).map (C.namesOf exposed F (cteNames C.schema.case (cleared prev)) (sources prev))

variable {C exposed F ctes}

theorem flatMap_itemNames_projected {all : List Expr} {label : String} {columns : List String} :
    (columns.map (C.projectedColumn label)).flatMap (C.itemNames exposed F ctes all) =
      (SourceNames.prefixed label columns).names := by
  rw [List.flatMap_map, SourceNames.names, List.map_eq_flatMap]
  rfl

/-- The projections of a source have the source's names. -/
theorem flatMap_itemNames_sourceProjection {all : List Expr} {source : Expr} :
    (C.sourceProjection ctes source).flatMap (C.itemNames exposed F ctes all) =
      (C.namesOf exposed F ctes all source).names := by
  unfold sourceProjection namesOf
  split
  · cases resolveTableName C.schema ctes source with
    | none => exact List.flatMap_singleton _ _
    | some t => exact flatMap_itemNames_projected
  · exact List.flatMap_singleton _ _

/-- **The columns of `_prev` are the names of its sources**, one source after the other. -/
theorem prevColumns_eq (prev : Expr) :
    C.prevColumns exposed F prev = (C.prevNames exposed F prev).flatMap SourceNames.names := by
  rw [prevColumns, slot_stripTree_expressions, qualifiedProjection, sources_cleared, prevNames,
    List.flatMap_map]
  cases hsources : sources prev with
  | nil => rfl
  | cons source rest =>
    have hne : (source :: rest).flatMap
        (C.sourceProjection (cteNames C.schema.case (cleared prev))) ≠ [] := fun hempty =>
      sourceProjection_ne_nil _ source (List.flatMap_eq_nil_iff.mp hempty source List.mem_cons_self)
    rw [orStar_of_ne_nil hne, List.flatMap_assoc]
    exact List.flatMap_congr fun s _ => flatMap_itemNames_sourceProjection

/-- **`_prev` has no column name twice** exactly when no source has, and no two sources share one. -/
theorem prevColumns_nodup_iff (C : ComposerEnv) (exposed : Expr → List String) (F : CaseFold) (prev : Expr) :
    ((C.prevColumns exposed F prev).map F.name).Nodup ↔
      (∀ n ∈ C.prevNames exposed F prev, n.Distinct F) ∧
        (C.prevNames exposed F prev).Pairwise (SourceNames.Apart F) := by
  rw [prevColumns_eq, SourceNames.nodup_flatMap_names_iff]

end ComposerEnv

/-! ## An alias with an underscore -/

/-- A comparison without case of ASCII names. -/
def asciiFold : CaseFold where
  char c := [c.toLower]
  underscore := rfl

/-- Two tables, one with an underscore in a column. -/
def plantSchema : Schema where
  case := asciiCase
  tables :=
    [{ key := "Plant", bare := "Plant", qualifier := [], columns := ["unit_ID"] },
     { key := "Unit", bare := "Unit", qualifier := [], columns := ["ID"] }]
  keys_nodup := by decide
  bare_ne_empty := by decide
  columns_ne_nil := by decide

/-- A composer over `plantSchema`. -/
def plantComposer : ComposerEnv where
  schema := plantSchema
  quoted _ := false

/-- `SELECT p.unit_ID FROM Plant AS p JOIN Unit AS p_unit ON p.unit_ID = p_unit.ID`. -/
def plantUnits : Expr :=
  Expr.selectFrom [] [Expr.columnRef "p" "unit_ID"] (Expr.tableRef "" "Plant" "p")
    [Expr.joinOn (Expr.tableRef "" "Unit" "p_unit")
      (Expr.equals (Expr.columnRef "p" "unit_ID") (Expr.columnRef "p_unit" "ID"))]

/-- **One name twice**: `p` with `unit_ID` and `p_unit` with `ID` are both `p_unit_ID`. -/
theorem plantUnits_not_nodup :
    plantComposer.prevColumns (fun _ => []) asciiFold plantUnits = ["p_unit_ID", "p_unit_ID"] ∧
      ¬ ((plantComposer.prevColumns (fun _ => []) asciiFold plantUnits).map asciiFold.name).Nodup := by
  have hcolumns : plantComposer.prevColumns (fun _ => []) asciiFold plantUnits =
      ["p_unit_ID", "p_unit_ID"] := by decide
  rw [hcolumns]
  exact ⟨rfl, by decide⟩

end LocalSqlAgent
