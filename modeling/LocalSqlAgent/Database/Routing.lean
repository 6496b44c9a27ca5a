import Mathlib.Data.List.Dedup
import Mathlib.Data.List.Sort

/-! # Data sources

`database.routing`: which data source a statement runs on. A table may live in several sources; a
statement can run on the sources every table it reads lives in, the default one preferred, then
`datasources.yaml` order. The guard and the executor both ask `chooseDatasource`. -/

namespace LocalSqlAgent

/-- Python's `sorted` on strings. -/
def sortedStrings (l : List String) : List String := l.insertionSort (· ≤ ·)

theorem sortedStrings_perm (l : List String) : (sortedStrings l).Perm l := List.perm_insertionSort _ _

theorem sortedStrings_sorted (l : List String) : (sortedStrings l).Pairwise (· ≤ ·) :=
  List.pairwise_insertionSort _ _

/-- **Sorting forgets exactly the order.** -/
theorem sortedStrings_eq_iff {l l' : List String} : sortedStrings l = sortedStrings l' ↔ l.Perm l' := by
  constructor
  · intro h
    exact (sortedStrings_perm l).symm.trans (h ▸ sortedStrings_perm l')
  · intro h
    exact ((sortedStrings_perm l).trans (h.trans (sortedStrings_perm l').symm)).eq_of_pairwise
      (fun _ _ _ _ hab hba => String.le_antisymm hab hba) (sortedStrings_sorted l) (sortedStrings_sorted l')
/-- Python's `sep.join`. -/
def joinStrings (sep : String) : List String → String
  | [] => ""
  | s :: rest => rest.foldl (fun acc t => acc ++ sep ++ t) s

/-- The configured data sources and where each table lives. -/
structure Datasources where
  /-- `default_datasource_name()`. -/
  default : String
  /-- The other source names, in `datasources.yaml` order. -/
  others : List String
  /-- `table_datasource_sets()`; `none` for a table `schema.yaml` does not list. -/
  sets : String → Option (List String)
  /-- A table without `datasource:` belongs to the default source. -/
  sets_ne_nil : ∀ t l, sets t = some l → l ≠ []

namespace Datasources

variable (D : Datasources)

/-- `datasource_names()`: every configured source, default first. -/
def names : List String := D.default :: D.others.filter (· ≠ D.default)

/-- The sources a table counts for. -/
def sourcesOf (table : String) : List String := (D.sets table).getD [D.default]

/-- `group_tables_by_datasource`: each involved source with its sorted tables. -/
def groupTables (tables : List String) : List (String × List String) :=
  let sources := (tables.flatMap D.sourcesOf).dedup
  sources.map fun s => (s, sortedStrings (tables.filter fun t => s ∈ D.sourcesOf t))

/-- `_in_config_order`: configured sources first, in order; the rest as given. -/
def inConfigOrder (given : List String) : List String :=
  (D.names.filter (· ∈ given)) ++ given.filter (· ∉ D.names)

/-- The message of `CrossDatasourceError`. -/
def crossMessage (groups : List (String × List String)) : String :=
  let ordered := groups.insertionSort fun a b => a.1 ≤ b.1
  let described := joinStrings "; " (ordered.map fun g => g.1 ++ ": " ++ joinStrings ", " g.2)
  let whereOf := fun t => (ordered.filter fun g => t ∈ g.2).map (·.1)
  let shared := (sortedStrings (ordered.flatMap (·.2)).dedup).filter fun t => 1 < (whereOf t).length
  let message := "query reads tables from more than one data source (" ++ described ++
    "); every table in one query must come from the same data source"
  if shared = [] then message
  else message ++ ". Available in several data sources: " ++
    joinStrings "; " (shared.map fun t => t ++ " (" ++ joinStrings ", " (whereOf t) ++ ")")

/-- **`choose_datasource`**: the source that can run a statement reading `tables`, `none` for no
table, or the cross-source message. -/
def chooseDatasource (tables : List String) : Except String (Option String) :=
  if tables = [] then .ok none
  else
    let groups := D.groupTables tables
    let candidates := (groups.map (·.1)).filter fun s => tables.all fun t => s ∈ D.sourcesOf t
    match D.inConfigOrder candidates with
    | [] => .error (crossMessage groups)
    | s :: _ => .ok (some s)

theorem mem_inConfigOrder {given : List String} {s : String} :
    s ∈ D.inConfigOrder given ↔ s ∈ given := by
  simp only [inConfigOrder, List.mem_append, List.mem_filter, decide_eq_true_eq]
  tauto

/-- **The chosen source has every table.** -/
theorem mem_sourcesOf_of_choose {tables : List String} {s : String}
    (h : D.chooseDatasource tables = .ok (some s)) : ∀ t ∈ tables, s ∈ D.sourcesOf t := by
  unfold chooseDatasource at h
  by_cases hnil : tables = []
  · simp [hnil] at h
  · rw [if_neg hnil] at h
    simp only at h
    split at h
    · cases h
    · rename_i s' rest hordered
      simp only [Except.ok.injEq, Option.some.injEq] at h
      have hmem : s' ∈ D.inConfigOrder _ := hordered ▸ List.mem_cons_self
      rw [D.mem_inConfigOrder, List.mem_filter, List.all_eq_true] at hmem
      intro t ht
      simpa [h] using hmem.2 t ht

/-! ## The choice, from the sources -/

/-- Every table lives in a source. -/
def Serves (tables : List String) (s : String) : Prop := ∀ t ∈ tables, s ∈ D.sourcesOf t

/-- The first source, default first, in which every table lives. -/
def FirstServing (tables : List String) (s : String) : Prop :=
  ∃ before after, D.names = before ++ s :: after ∧ D.Serves tables s ∧
    ∀ s' ∈ before, ¬ D.Serves tables s'

/-- What `check_table_datasources` requires at startup: tables name configured sources only. -/
def Configured : Prop := ∀ t l, D.sets t = some l → ∀ s ∈ l, s ∈ D.names

variable {D} {tables : List String} {s : String}

theorem Configured.mem_names (hconf : D.Configured) {t : String} (hs : s ∈ D.sourcesOf t) :
    s ∈ D.names := by
  rw [sourcesOf] at hs
  cases hsets : D.sets t with
  | none =>
    rw [hsets, Option.getD_none, List.mem_singleton] at hs
    exact hs ▸ List.mem_cons_self
  | some l =>
    rw [hsets, Option.getD_some] at hs
    exact hconf t l hsets s hs

/-- The candidates of `chooseDatasource` are the sources that serve every table. -/
theorem mem_candidates (hne : tables ≠ []) :
    s ∈ ((D.groupTables tables).map (·.1)).filter (fun s => tables.all fun t => s ∈ D.sourcesOf t) ↔
      D.Serves tables s := by
  have hgroups : (D.groupTables tables).map (·.1) = (tables.flatMap D.sourcesOf).dedup := by
    rw [groupTables, List.map_map]
    exact List.map_id _
  rw [List.mem_filter, List.all_eq_true, hgroups, List.mem_dedup, List.mem_flatMap]
  simp only [decide_eq_true_eq]
  constructor
  · intro h
    exact h.2
  · intro h
    obtain ⟨t, ht⟩ := List.exists_mem_of_ne_nil tables hne
    exact ⟨⟨t, ht, h t ht⟩, h⟩

/-- Over configured sources the ordered candidates are the names that serve every table. -/
theorem inConfigOrder_eq (hconf : D.Configured) (hne : tables ≠ []) {given : List String}
    (hgiven : ∀ s, s ∈ given ↔ D.Serves tables s) :
    D.inConfigOrder given = D.names.filter (· ∈ given) := by
  have hnone : given.filter (· ∉ D.names) = [] := by
    rw [List.filter_eq_nil_iff]
    intro s hs
    obtain ⟨t, ht⟩ := List.exists_mem_of_ne_nil tables hne
    have hmem : s ∈ D.names := hconf.mem_names ((hgiven s).mp hs t ht)
    simpa using hmem
  rw [inConfigOrder, hnone, List.append_nil]

/-- The ordered candidates start with the first source that serves every table. -/
theorem inConfigOrder_eq_cons_iff (hconf : D.Configured) (hne : tables ≠ []) {given : List String}
    (hgiven : ∀ s, s ∈ given ↔ D.Serves tables s) :
    (∃ rest, D.inConfigOrder given = s :: rest) ↔ D.FirstServing tables s := by
  rw [inConfigOrder_eq hconf hne hgiven]
  simp only [List.filter_eq_cons_iff, decide_eq_true_eq, hgiven]
  constructor
  · rintro ⟨-, before, after, hnames, hbefore, hs, -⟩
    exact ⟨before, after, hnames, hs, hbefore⟩
  · rintro ⟨before, after, hnames, hs, hbefore⟩
    exact ⟨_, before, after, hnames, hbefore, hs, rfl⟩

/-- **Spec of `chooseDatasource`**: the first configured source in which every table lives. -/
theorem choose_eq_some_iff (hconf : D.Configured) :
    D.chooseDatasource tables = .ok (some s) ↔ tables ≠ [] ∧ D.FirstServing tables s := by
  by_cases hne : tables = []
  · simp [chooseDatasource, hne]
  · have hcand := fun s => mem_candidates (D := D) (s := s) hne
    rw [chooseDatasource, if_neg hne, ← inConfigOrder_eq_cons_iff hconf hne hcand]
    simp only
    split
    · rename_i hnil
      simp [hnil]
    · rename_i s' rest hcons
      simp [hcons, hne]

theorem choose_eq_none_iff : D.chooseDatasource tables = .ok none ↔ tables = [] := by
  by_cases hne : tables = []
  · simp [chooseDatasource, hne]
  · rw [chooseDatasource, if_neg hne]
    simp only
    split <;> simp [hne]

/-- **The routing refuses** exactly when no source has every table. -/
theorem choose_error_iff : (∃ message, D.chooseDatasource tables = .error message) ↔
    tables ≠ [] ∧ ¬ ∃ s, D.Serves tables s := by
  by_cases hne : tables = []
  · simp [chooseDatasource, hne]
  · have hcand := fun s => mem_candidates (D := D) (s := s) hne
    rw [chooseDatasource, if_neg hne]
    simp only
    split
    · rename_i hnil
      refine ⟨fun _ => ⟨hne, ?_⟩, fun _ => ⟨_, rfl⟩⟩
      rintro ⟨s, hs⟩
      have hmem : s ∈ D.inConfigOrder _ := D.mem_inConfigOrder.mpr ((hcand s).mpr hs)
      rw [hnil] at hmem
      cases hmem
    · rename_i s' rest hcons
      have hmem : s' ∈ D.inConfigOrder _ := hcons ▸ List.mem_cons_self
      have hserves := (hcand s').mp (D.mem_inConfigOrder.mp hmem)
      simpa using fun _ => ⟨s', hserves⟩

/-- A table always lives somewhere, so one table is never refused. -/
theorem exists_serves_singleton {t : String} : ∃ s, D.Serves [t] s := by
  have hne : D.sourcesOf t ≠ [] := by
    rw [sourcesOf]
    cases hsets : D.sets t with
    | none => exact List.cons_ne_nil _ _
    | some l => exact D.sets_ne_nil t l hsets
  obtain ⟨s, hs⟩ := List.exists_mem_of_ne_nil _ hne
  exact ⟨s, by simpa [Serves] using hs⟩

theorem Serves.congr {tables' : List String} (h : ∀ t, t ∈ tables ↔ t ∈ tables') :
    D.Serves tables s ↔ D.Serves tables' s := by
  simp only [Serves, h]

theorem FirstServing.congr {tables' : List String} (h : ∀ t, t ∈ tables ↔ t ∈ tables') :
    D.FirstServing tables s ↔ D.FirstServing tables' s := by
  simp only [FirstServing, Serves.congr h]

end Datasources

end LocalSqlAgent
