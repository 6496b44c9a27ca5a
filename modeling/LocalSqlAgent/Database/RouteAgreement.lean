import LocalSqlAgent.Security.JoinOnlyScope

/-! # The guard's source and the executor's

`resolve_datasource` of `database.routing` and `_route` of `database.executor`, beside the guard's
`_executing_source`. Both sides ask `chooseDatasource` about the tables `_resolve_table_name` finds,
which skips every table reference with a CTE's name; what the statement reads is decided by SQL's
scope. -/

namespace LocalSqlAgent

/-! ## The executor -/

/-- `extract_touched_tables` on the statements the parser returns. -/
def extractTouchedTables (S : Schema) (parsed : List (Option Expr)) : List String :=
  sortedStrings
    (((parsed.filterMap id).flatMap fun tree => (resolvedTables S tree).map (·.key)).dedup)

/-- `resolve_datasource`. -/
def resolveDatasource (S : Schema) (D : Datasources) (parsed : List (Option Expr)) :
    Except String String :=
  (D.chooseDatasource (extractTouchedTables S parsed)).map fun source => source.getD D.default

/-- `_route`: an explicit source wins. -/
def route (S : Schema) (D : Datasources) (parsed : List (Option Expr)) :
    Option String → Except String String
  | some source => .ok source
  | none => (resolveDatasource S D parsed).mapError fun message => "Database error: " ++ message

/-! ## What a statement reads -/

/-- A table node is a physical table's: it has a name, and SQL does not take it for a CTE. -/
def IsPhysical (S : Schema) (dialect : Dialect) (o : ExprOcc) : Prop :=
  o.node.cls = .table ∧ o.node.name ≠ "" ∧ ¬ NamesCte S dialect o

/-- A table node means one allowlisted table. -/
def MeansTable (S : Schema) (o : ExprOcc) (t : SchemaTable) : Prop :=
  t ∈ S.tables ∧ Denotes S t o.node.name (writtenQualifier S o) ∧
    ∀ u ∈ S.tables, Denotes S u o.node.name (writtenQualifier S o) → u = t

/-- **A source contains every physical table the statement reads.** -/
def ContainsReads (E : GuardEnv) (dialect : Dialect) (tree : Expr) (s : String) : Prop :=
  ∀ o, InTree tree o → IsPhysical E.schema dialect o →
    ∃ t, MeansTable E.schema o t ∧ s ∈ E.datasources.sourcesOf t.key

/-- **Guard and executor agree** on a statement. -/
structure RoutingAgrees (E : GuardEnv) (dialect : Dialect) (parsed : List (Option Expr))
    (tree : Expr) : Prop where
  /-- One source is enforced, routed to, and has every table. -/
  source : ∃ s, executingSource E tree = some s ∧ route E.schema E.datasources parsed none = .ok s ∧
    ContainsReads E dialect tree s
  /-- The routing refuses when no source has every table, and only then. -/
  refuses : (∃ message, route E.schema E.datasources parsed none = .error message) ↔
    ¬ ∃ s, ContainsReads E dialect tree s

/-- A table reference that has a name no CTE of the statement bears. -/
def KeepsOwnName (S : Schema) (tree : Expr) (o : ExprOcc) : Prop :=
  InTree tree o ∧ o.node.cls = .table ∧ o.node.name ≠ "" ∧
    S.case.lower o.node.name ∉ cteNames S.case tree

/-- The keys of the tables `_resolve_table_name` finds. -/
def resolvedKeys (S : Schema) (tree : Expr) : List String := (resolvedTables S tree).map (·.key)

variable {E : GuardEnv} {dialect : Dialect} {policy : GuardPolicy} {tree : Expr}
  {parsed : List (Option Expr)}

theorem mem_resolvedKeys {S : Schema} {key : String} : key ∈ resolvedKeys S tree ↔
    ∃ o t, InTree tree o ∧ o.node.cls = .table ∧
      resolveTableName S (cteNames S.case tree) o.node = some t ∧ t.key = key := by
  simp only [resolvedKeys, resolvedTables, List.mem_map, List.mem_dedup, List.mem_filterMap,
    mem_findAll, Cls.isTable_iff]
  constructor
  · rintro ⟨t, ⟨_, ⟨o, ⟨ho, hcls⟩, rfl⟩, ht⟩, rfl⟩
    exact ⟨o, t, ho, hcls, ht, rfl⟩
  · rintro ⟨o, t, ho, hcls, ht, rfl⟩
    exact ⟨t, ⟨_, ⟨o, ⟨ho, hcls⟩, rfl⟩, ht⟩, rfl⟩

/-- The executor sees the tables the guard sees. -/
theorem mem_extractTouchedTables {S : Schema} (hparsed : parsed.filterMap id = [tree])
    {key : String} : key ∈ extractTouchedTables S parsed ↔ key ∈ resolvedKeys S tree := by
  rw [extractTouchedTables, sortedStrings, List.mem_insertionSort, List.mem_dedup, hparsed]
  simp [resolvedKeys]

/-- On an accepted statement a reference that keeps its own name resolves, for the guard, to the
one table it means. -/
theorem exists_resolved_of_accepted (h : validateTree E dialect policy tree = .ok ()) {o : ExprOcc}
    (ho : KeepsOwnName E.schema tree o) :
    ∃ t, MeansTable E.schema o t ∧ t.key ∈ resolvedKeys E.schema tree := by
  obtain ⟨hin, hcls, hname, hcte⟩ := ho
  obtain ⟨-, hnodes, -⟩ := validateTree_ok_iff.mp h
  have htable := checkTable_of_checkNode (hnodes o hin) hcls
  have hresolved := checkAllowlist_ok_iff.mp (checkAllowlist_of_checkTable htable hname hcte)
  obtain ⟨t, hcanonical, ht, hdenotes, hunique⟩ := matchTableRef_resolved hresolved
  refine ⟨t, ⟨ht, hdenotes, hunique⟩, mem_resolvedKeys.mpr ⟨o, t, hin, hcls, ?_, rfl⟩⟩
  have hname' := tableRefName_eq (C := E.schema.case) hcls hname
  simp only [resolveTableName, hname', if_neg (not_or.mpr ⟨hname, hcte⟩)]
  exact hcanonical

/-- **The routing of any text** refuses exactly when no source has every table it touches. -/
theorem route_error_iff {S : Schema} {D : Datasources} :
    (∃ message, route S D parsed none = .error message) ↔
      extractTouchedTables S parsed ≠ [] ∧ ¬ ∃ s, D.Serves (extractTouchedTables S parsed) s := by
  rw [← Datasources.choose_error_iff, route, resolveDatasource]
  cases D.chooseDatasource (extractTouchedTables S parsed) with
  | error message => exact ⟨fun _ => ⟨message, rfl⟩, fun _ => ⟨_, rfl⟩⟩
  | ok source =>
    constructor
    · rintro ⟨message, h⟩
      cases h
    · rintro ⟨message, h⟩
      cases h

/-! ## When they agree -/

/-- An accepted text is one accepted statement. -/
theorem exists_tree_of_accepted (h : validateStatements E dialect policy parsed = .ok ()) :
    ∃ tree, parsed.filterMap id = [tree] ∧ validateTree E dialect policy tree = .ok () := by
  unfold validateStatements at h
  split at h
  · cases h
  · rename_i tree hparsed
    exact ⟨tree, hparsed, h⟩
  · split at h <;> cases h

/-- An accepted statement with a table the guard recognises has a source for those tables. -/
theorem exists_chosen_of_accepted (h : validateTree E dialect policy tree = .ok ())
    (hne : resolvedKeys E.schema tree ≠ []) :
    ∃ s, E.datasources.chooseDatasource (resolvedKeys E.schema tree) = .ok (some s) := by
  obtain ⟨-, -, hsingle, -⟩ := validateTree_ok_iff.mp h
  have hserved : ∃ s, E.datasources.Serves (resolvedKeys E.schema tree) s := by
    by_contra hnone
    obtain ⟨message, herror⟩ := Datasources.choose_error_iff.mpr ⟨hne, hnone⟩
    simp only [requireSingleDatasource] at hsingle
    split at hsingle
    · rename_i hlt
      -- one table is never refused
      have hlength : (resolvedKeys E.schema tree).length = 1 := by
        have hpos := List.length_pos_of_ne_nil hne
        rw [resolvedKeys] at hpos ⊢
        omega
      obtain ⟨key, hkey⟩ := List.length_eq_one_iff.mp hlength
      exact hnone (hkey ▸ Datasources.exists_serves_singleton)
    · rw [resolvedKeys] at herror
      rw [herror] at hsingle
      cases hsingle
  cases hchoose : E.datasources.chooseDatasource (resolvedKeys E.schema tree) with
  | error message => exact absurd hserved (Datasources.choose_error_iff.mp ⟨message, hchoose⟩).2
  | ok source =>
    cases source with
    | none => exact absurd (Datasources.choose_eq_none_iff.mp hchoose) hne
    | some s => exact ⟨s, rfl⟩

/-- The guard's source is the choice for the tables it recognises. -/
theorem executingSource_eq_some_iff {s : String} : executingSource E tree = some s ↔
    E.datasources.chooseDatasource (resolvedKeys E.schema tree) = .ok (some s) := by
  rw [executingSource, resolvedKeys]
  split
  · rename_i hchoose
    simp [hchoose]
  · rename_i hchoose
    simp [hchoose]

/-- **One statement, one choice**: where the guard has a source, the executor routes there. -/
theorem route_of_executingSource (hconf : E.datasources.Configured)
    (hparsed : parsed.filterMap id = [tree]) {s : String} (h : executingSource E tree = some s) :
    route E.schema E.datasources parsed none = .ok s := by
  rw [executingSource_eq_some_iff, Datasources.choose_eq_some_iff hconf] at h
  obtain ⟨hne, hfirst⟩ := h
  have hmem : ∀ key, key ∈ extractTouchedTables E.schema parsed ↔ key ∈ resolvedKeys E.schema tree :=
    fun _ => mem_extractTouchedTables hparsed
  have hne' : extractTouchedTables E.schema parsed ≠ [] := by
    obtain ⟨key, hkey⟩ := List.exists_mem_of_ne_nil _ hne
    exact List.ne_nil_of_mem ((hmem key).mpr hkey)
  have hchoose : E.datasources.chooseDatasource (extractTouchedTables E.schema parsed) =
      .ok (some s) :=
    (Datasources.choose_eq_some_iff hconf).mpr
      ⟨hne', (Datasources.FirstServing.congr hmem).mpr hfirst⟩
  rw [route, resolveDatasource, hchoose]
  rfl

/-- The condition under which guard and executor agree: the guard recognises a table, and each
reference that borrows a CTE's name means a table which the first source with all of those has
too. -/
def BorrowedOnSource (E : GuardEnv) (dialect : Dialect) (tree : Expr) : Prop :=
  resolvedKeys E.schema tree ≠ [] ∧
    ∀ o, InTree tree o → o.node.cls = .table → BorrowsCteName E.schema dialect tree o →
      ∃ t, MeansTable E.schema o t ∧ ∀ s,
        E.datasources.FirstServing (resolvedKeys E.schema tree) s → s ∈ E.datasources.sourcesOf t.key

/-- The source of the recognised tables contains the reads exactly when it has the borrowed
ones. -/
theorem containsReads_iff_of_accepted (h : validateTree E dialect policy tree = .ok ()) {s : String}
    (hs : E.datasources.Serves (resolvedKeys E.schema tree) s) :
    ContainsReads E dialect tree s ↔
      ∀ o, InTree tree o → o.node.cls = .table → BorrowsCteName E.schema dialect tree o →
        ∃ t, MeansTable E.schema o t ∧ s ∈ E.datasources.sourcesOf t.key := by
  constructor
  · intro hreads o ho hcls hborrow
    have hname : o.node.name ≠ "" := by
      intro hname
      have hmem := hborrow.1
      rw [hname] at hmem
      exact lower_empty_not_mem_aliasesOf hmem
    exact hreads o ho ⟨hcls, hname, hborrow.2⟩
  · rintro hborrowed o ho ⟨hcls, hname, hnot⟩
    by_cases hcte : E.schema.case.lower o.node.name ∈ cteNames E.schema.case tree
    · exact hborrowed o ho hcls ⟨hcte, hnot⟩
    · obtain ⟨t, hmeans, hkey⟩ := exists_resolved_of_accepted h ⟨ho, hcls, hname, hcte⟩
      exact ⟨t, hmeans, hs _ hkey⟩

/-- **Guard and executor agree on an accepted statement** exactly when the guard recognises a table
in it and the references that borrow a CTE's name are on the source of the recognised ones. -/
theorem routingAgrees_iff_of_accepted (hconf : E.datasources.Configured)
    (h : validateStatements E dialect policy parsed = .ok ()) :
    ∃ tree, parsed.filterMap id = [tree] ∧
      (RoutingAgrees E dialect parsed tree ↔ BorrowedOnSource E dialect tree) := by
  obtain ⟨tree, hparsed, htree⟩ := exists_tree_of_accepted h
  refine ⟨tree, hparsed, ?_, ?_⟩
  · rintro ⟨⟨s, hs, -, hreads⟩, -⟩
    obtain ⟨hne, hfirst⟩ := (Datasources.choose_eq_some_iff hconf).mp
      (executingSource_eq_some_iff.mp hs)
    refine ⟨hne, ?_⟩
    intro o ho hcls hborrow
    obtain ⟨before, after, -, hserves, -⟩ := id hfirst
    obtain ⟨t, hmeans, ht⟩ := (containsReads_iff_of_accepted htree hserves).mp hreads o ho hcls hborrow
    refine ⟨t, hmeans, fun s' hfirst' => ?_⟩
    -- there is one first source
    have hs' := (Datasources.choose_eq_some_iff hconf).mpr ⟨hne, hfirst'⟩
    rw [executingSource_eq_some_iff.mp hs, Except.ok.injEq, Option.some.injEq] at hs'
    exact hs' ▸ ht
  · rintro ⟨hne, hborrowed⟩
    obtain ⟨s, hchoose⟩ := exists_chosen_of_accepted htree hne
    have hs := executingSource_eq_some_iff.mpr hchoose
    have hroute := route_of_executingSource hconf hparsed hs
    obtain ⟨-, hfirst⟩ := (Datasources.choose_eq_some_iff hconf).mp hchoose
    obtain ⟨before, after, -, hserves, -⟩ := id hfirst
    have hreads : ContainsReads E dialect tree s := by
      refine (containsReads_iff_of_accepted htree hserves).mpr ?_
      intro o ho hcls hborrow
      obtain ⟨t, hmeans, ht⟩ := hborrowed o ho hcls hborrow
      exact ⟨t, hmeans, ht s hfirst⟩
    refine ⟨⟨s, hs, hroute, hreads⟩, ?_, fun hnone => absurd ⟨s, hreads⟩ hnone⟩
    rintro ⟨message, herror⟩
    rw [hroute] at herror
    cases herror

/-! ## A deployment with two sources -/

/-- `sales.Customer` lives in `main`, `sales.Order` in `archive`. -/
def twoSources : Datasources where
  default := "main"
  others := ["archive"]
  sets := fun key =>
    if key = "sales.Customer" then some ["main"]
    else if key = "sales.Order" then some ["archive"] else none
  sets_ne_nil := by
    intro key l h
    split_ifs at h <;> · cases h; exact List.cons_ne_nil _ _

/-- The guard over these sources. -/
def twoSourcesEnv : GuardEnv := { salesEnv with datasources := twoSources }

theorem twoSources_configured : twoSources.Configured := by
  intro key l h s hs
  simp only [twoSources] at h
  split_ifs at h <;> · cases h; rw [List.mem_singleton] at hs; subst hs; decide

open Expr in
/-- `WITH [Order] AS (SELECT Name FROM sales.Customer) SELECT CustomerID FROM sales.[Order]`. -/
def borrowedOrder : Expr :=
  selectFrom [("Order", selectFrom [] [columnRef "" "Name"] (tableRef "sales" "Customer" ""))]
    [columnRef "" "CustomerID"] (tableRef "sales" "Order" "")

/-- The statement is accepted, enforced on and routed to `main`, and reads `sales.Order`, which only
`archive` has. -/
theorem borrowedOrder_routed_elsewhere :
    validateStatements twoSourcesEnv .tsql {} [some borrowedOrder] = .ok () ∧
      ¬ RoutingAgrees twoSourcesEnv .tsql [some borrowedOrder] borrowedOrder := by
  refine ⟨rfl, ?_⟩
  rintro ⟨⟨s, hs, -, hreads⟩, -⟩
  have hmain : executingSource twoSourcesEnv borrowedOrder = some "main" := by decide
  rw [hmain, Option.some.injEq] at hs
  subst hs
  have hne : findAll Cls.isTable borrowedOrder ≠ [] := List.ne_nil_of_length_pos (by decide)
  obtain ⟨hin, hcls⟩ := mem_findAll.mp (List.head_mem hne)
  have hphysical : IsPhysical salesSchema .tsql ((findAll Cls.isTable borrowedOrder).head hne) := by
    refine ⟨Cls.isTable_iff.mp hcls, (by decide : "Order" ≠ ""), ?_⟩
    rintro ⟨hqualifier, -⟩
    cases hqualifier
  obtain ⟨t, ⟨ht, ⟨hbare, -⟩, -⟩, hsource⟩ := hreads _ hin hphysical
  have hno : ∀ t ∈ salesSchema.tables, salesSchema.case.lower t.bare = salesSchema.case.lower "Order" →
      "main" ∉ twoSources.sourcesOf t.key := by decide
  exact hno t ht hbare hsource

open Expr in
/-- `SELECT CustomerID FROM sales.[Order]`. -/
def plainOrder : Expr := selectFrom [] [columnRef "" "CustomerID"] (tableRef "sales" "Order" "")

theorem plainOrder_routingAgrees_iff :
    validateStatements twoSourcesEnv .tsql {} [some plainOrder] = .ok () ∧
      ∃ tree, [some plainOrder].filterMap id = [tree] ∧
        (RoutingAgrees twoSourcesEnv .tsql [some plainOrder] tree ↔
          BorrowedOnSource twoSourcesEnv .tsql tree) :=
  ⟨rfl, @routingAgrees_iff_of_accepted twoSourcesEnv _ {} _ twoSources_configured rfl⟩

end LocalSqlAgent
