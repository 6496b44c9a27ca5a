import LocalSqlAgent.Security.PolicyNodes

/-! # Plain denial and scoped denial

A key may deny a column outright, or scope it to join keys on every table that has it. The two are
enforced by different passes: the denied names are looked for in columns and stars, the scoped ones in
`USING` lists and natural joins as well, and through the selects around a reference.

* **`scopedColumns`**: the entries `T.C` for every table `T` that has the column `C`.
* **`DenialSees`**: the plain denial looks wherever the join-only pass would refuse.
* **`scopedEntries_accept_iff`**: a statement accepted with the column denied is accepted with it scoped
  exactly when the plain denial looks there. -/

namespace LocalSqlAgent

section Policies

variable (E : GuardEnv) (column : String)

/-- A table has the column. -/
def hasColumn (t : SchemaTable) : Bool := E.schema.case.lower column ∈ E.schema.columnsByTable t

/-- The tables that have the column. -/
def tablesWith : List SchemaTable := E.schema.tables.filter (hasColumn E column)

theorem separated_ne_empty (s u : String) : s ++ "." ++ u ≠ "" := by
  intro h
  have hlength := congrArg String.length h
  rw [String.length_append, String.length_append] at hlength
  exact absurd hlength (by
    show s.length + 1 + u.length ≠ 0
    omega)

/-- The join-only entry `T.C`. -/
def scopedColumn (t : SchemaTable) : ScopedColumn where
  datasource := none
  table := some t.key
  column := column
  entry := t.key ++ "." ++ column
  entry_ne_empty := separated_ne_empty t.key column

/-- **The join-only entries of a column**, one for every table that has it. -/
def scopedColumns : List ScopedColumn := (tablesWith E column).map (scopedColumn column)

/-- The restrictions those entries stand for. -/
def scopedRestrictions : JoinOnlyRestrictions where
  byTable := (tablesWith E column).map fun t =>
    (t.key, [(E.schema.case.casefold column, t.key ++ "." ++ column)])
  entry_ne_empty := by
    intro t ht c hc
    obtain ⟨u, -, rfl⟩ := List.mem_map.mp ht
    rw [List.mem_singleton.mp hc]
    exact separated_ne_empty u.key column

/-- **Scoped instead of denied**: the one list of entries denies the column outright, the other scopes it
on every table that has it and denies nothing that the first does not. -/
def ScopedInstead (entries entries' : List String) : Prop :=
  ∃ policy rest, parseColumnPolicy E.schema.case E.repr entries = .ok policy ∧
    E.schema.case.upper column ∈ policy.denied ∧ rest ⊆ policy.denied ∧
    parseColumnPolicy E.schema.case E.repr entries' = .ok ⟨rest, scopedColumns E column⟩

/-! ## Where the plain denial looks -/

/-- The entry `T.C` resolves: no other table is written like `T`, and `T` has the column under its
case-folded name. -/
structure EntryResolves (t : SchemaTable) : Prop where
  alone : ∀ u ∈ E.schema.tables, normName E.schema.case t.key ∈ tableSpellings E.schema.case u → u = t
  folded : E.schema.case.casefold column ∈ E.schema.columnsByTable t

/-- A name the join-only pass takes for the column. -/
def Namesake (name : String) : Prop :=
  E.schema.case.lower name = E.schema.case.casefold column ∧
    E.schema.case.casefold name = E.schema.case.casefold column

variable (tree : Expr)

/-- **The plain denial sees the column** wherever the join-only pass would refuse it. -/
structure DenialSees : Prop where
  /-- Every entry `T.C` resolves. -/
  resolves : ∀ t ∈ tablesWith E column, EntryResolves E column t
  /-- A column that may be a scoped one and is no join key is spelled like it in upper case. -/
  columns : ∀ o, InTree tree o → o.node.cls = .column → o.node.name ≠ "" → o.node.name ≠ "*" →
    Namesake E column o.node.name → isJoinKeyOperand o = false →
    restrictedTablesOf E.schema tree (scopedRestrictions E column) o ≠ [] →
      E.schema.case.upper o.node.name = E.schema.case.upper column
  /-- No `USING` of a select that reads a table with the column names it, and none joins naturally. -/
  joins : ∀ o, InTree tree o → ∀ method side kind, o.node.cls = .join method side kind →
    ∀ s ∈ enclosingSelect o, ∀ t ∈ scopeTables E.schema (cteNames E.schema.case tree) s.node,
      hasColumn E column t = true → (∀ ident ∈ o.node.slot .using_, ¬ Namesake E column ident.name) ∧
        E.schema.case.upper method ≠ "NATURAL"
  /-- A star that reads a table with the column is expanded to that table, and the column's upper-case
  spelling is the one its lower-case spelling has. -/
  stars : ∀ o, InTree tree o → o.node.cls = .star → isCountStar o = false →
    ∀ t ∈ (expandStar E.schema tree o).tables, hasColumn E column t = true →
      (∃ tables ∈ starTables E tree o, t ∈ tables) ∧
        E.schema.case.upper (E.schema.case.lower column) = E.schema.case.upper column

end Policies

variable {E : GuardEnv} {column : String} {tree : Expr} {dialect : Dialect}

/-! ## The entries, resolved -/

theorem mem_tablesWith {t : SchemaTable} :
    t ∈ tablesWith E column ↔ t ∈ E.schema.tables ∧ hasColumn E column t = true := by
  rw [tablesWith, List.mem_filter]

theorem nodup_tables : E.schema.tables.Nodup := List.Nodup.of_map _ E.schema.keys_nodup

/-- A list without repetitions whose elements are all one is that one. -/
theorem eq_singleton_of_nodup {α : Type*} {l : List α} {a : α} (hnodup : l.Nodup) (ha : a ∈ l)
    (hall : ∀ b ∈ l, b = a) : l = [a] := by
  cases l with
  | nil => cases ha
  | cons b rest =>
    have hb := hall b List.mem_cons_self
    subst hb
    cases rest with
    | nil => rfl
    | cons c rest =>
      have hc := hall c (List.mem_cons_of_mem _ List.mem_cons_self)
      subst hc
      exact absurd List.mem_cons_self (List.nodup_cons.mp hnodup).1

/-- A table is written like itself. -/
theorem mem_spelled_self {t : SchemaTable} (ht : t ∈ E.schema.tables) :
    t ∈ E.schema.tables.filter fun u => normName E.schema.case t.key ∈ tableSpellings E.schema.case u :=
  List.mem_filter.mpr ⟨ht, by simp [tableSpellings]⟩

/-- An entry that resolves names its own table. -/
theorem resolveEntry_scopedColumn {t : SchemaTable} (ht : t ∈ tablesWith E column)
    (h : EntryResolves E column t) : resolveEntry E (scopedColumn column t) = .ok (none, [t]) := by
  have hone : (E.schema.tables.filter fun u =>
      normName E.schema.case t.key ∈ tableSpellings E.schema.case u) = [t] :=
    eq_singleton_of_nodup (nodup_tables.filter _) (mem_spelled_self (mem_tablesWith.mp ht).1) fun u hu => by
      obtain ⟨hu, hspelled⟩ := List.mem_filter.mp hu
      exact h.alone u hu (by simpa using hspelled)
  have hmatch : matchTable E t.key = .ok (some t) := by
    unfold matchTable
    dsimp only
    rw [hone]
  have htables : entryTables E (scopedColumn column t) none = .ok [t] := by
    unfold entryTables scopedColumn
    dsimp only
    rw [hmatch]
    simp [h.folded]
  rw [resolveEntry, bind_ok_iff]
  refine ⟨none, rfl, ?_⟩
  rw [htables]
  rfl

theorem entryResolves_of_resolveEntry {t : SchemaTable} (ht : t ∈ tablesWith E column)
    {r : Option String × List SchemaTable} (h : resolveEntry E (scopedColumn column t) = .ok r) :
    EntryResolves E column t := by
  have htable := (mem_tablesWith.mp ht).1
  rw [resolveEntry, bind_ok_iff] at h
  obtain ⟨source, -, h⟩ := h
  rw [bind_ok_iff] at h
  obtain ⟨tables, htables, -⟩ := h
  unfold entryTables scopedColumn matchTable at htables
  dsimp only at htables
  split at htables
  · cases htables
  · cases htables
  · rename_i u hu
    split at hu
    · rename_i u' hone
      cases hu
      have htu := eq_of_filter_eq_singleton hone htable (List.mem_filter.mp (mem_spelled_self htable)).2
      subst htu
      refine ⟨fun v hv hspelled => ?_, ?_⟩
      · exact eq_of_filter_eq_singleton hone hv (by simpa using hspelled)
      · by_contra hfolded
        rw [if_pos hfolded] at htables
        cases htables
    · cases hu
    · rename_i hnil
      have hself := mem_spelled_self htable
      rw [hnil] at hself
      cases hself

/-- A restriction on a table that has none yet comes last. -/
theorem restrictTable_of_notMem {table name entry : String}
    {byTable : List (String × List (String × String))} (h : table ∉ byTable.map (·.1)) :
    restrictTable table name entry byTable = byTable ++ [(table, [(name, entry)])] := by
  induction byTable with
  | nil => rfl
  | cons head rest ih =>
    obtain ⟨key, columns⟩ := head
    rw [List.map_cons, List.mem_cons, not_or] at h
    rw [restrictTable, if_neg fun heq => h.1 heq.symm, ih h.2]
    rfl

/-- The entries resolve to one restriction each. -/
theorem resolveFrom_scopedColumns {source : Option String} {tables : List SchemaTable}
    {R : JoinOnlyRestrictions} (hsub : ∀ t ∈ tables, t ∈ tablesWith E column)
    (hresolves : ∀ t ∈ tables, EntryResolves E column t)
    (hnodup : (R.byTable.map (·.1) ++ tables.map (·.key)).Nodup) :
    ∃ R', resolveFrom E source R (tables.map (scopedColumn column)) = .ok R' ∧
      R'.byTable = R.byTable ++ tables.map fun t =>
        (t.key, [(E.schema.case.casefold column, t.key ++ "." ++ column)]) := by
  induction tables generalizing R with
  | nil => exact ⟨R, rfl, by simp⟩
  | cons t rest ih =>
    obtain ⟨hresolve, hrest⟩ := List.forall_mem_cons.mp hresolves
    have hfresh : t.key ∉ R.byTable.map (·.1) := fun hmem =>
      (List.nodup_append.mp hnodup).2.2 _ hmem _ List.mem_cons_self rfl
    have htable : (R.restrict E (scopedColumn column t) t).byTable =
        R.byTable ++ [(t.key, [(E.schema.case.casefold column, t.key ++ "." ++ column)])] :=
      restrictTable_of_notMem hfresh
    obtain ⟨R', hR', hbyTable⟩ := ih (R := R.restrict E (scopedColumn column t) t)
      (fun u hu => hsub u (List.mem_cons_of_mem _ hu)) hrest (by
        rw [htable, List.map_append, List.append_assoc]
        exact hnodup)
    refine ⟨R', ?_, ?_⟩
    · rw [List.map_cons, resolveFrom, resolveEntry_scopedColumn (hsub t List.mem_cons_self) hresolve]
      -- an entry for every source is in force on this one
      have hother : otherSource E source none = false := by cases source <;> rfl
      show resolveFrom E source (if otherSource E source none = true then R else _) _ = _
      rw [hother]
      exact hR'
    · rw [hbyTable, htable, List.map_cons, List.append_assoc]
      rfl

/-- **The entries `T.C` resolve to their restrictions**, on every source. -/
theorem resolveJoinOnly_scopedColumns {source : Option String} :
    (∃ R, resolveJoinOnly E (scopedColumns E column) source = .ok R) ↔
      ∀ t ∈ tablesWith E column, EntryResolves E column t := by
  unfold resolveJoinOnly
  rw [exists_resolveFrom_ok, scopedColumns, List.forall_mem_map]
  refine forall₂_congr fun t ht => ⟨?_, fun h => ⟨_, resolveEntry_scopedColumn ht h⟩⟩
  rintro ⟨r, hr⟩
  exact entryResolves_of_resolveEntry ht hr

theorem eq_scopedRestrictions {source : Option String} {R : JoinOnlyRestrictions}
    (h : resolveJoinOnly E (scopedColumns E column) source = .ok R) : R = scopedRestrictions E column := by
  have hresolves := resolveJoinOnly_scopedColumns.mp ⟨R, h⟩
  obtain ⟨R', hR', hbyTable⟩ := @resolveFrom_scopedColumns E column source (tablesWith E column)
    ⟨[], fun _ h => absurd h List.not_mem_nil⟩ (fun t ht => ht) hresolves ((E.schema.keys_nodup.sublist (List.filter_sublist.map _)))
  have hsame : R = R' := Except.ok.inj (h.symm.trans hR')
  subst hsame
  obtain ⟨byTable, _⟩ := R
  rw [List.nil_append] at hbyTable
  subst hbyTable
  rfl

/-! ## What the restrictions say -/

/-- Looking a key up among the elements with a property. -/
theorem lookup_map_filter {α β : Type*} {key : α → String} {f : α → β} {p : α → Bool} {l : List α}
    (hnodup : (l.map key).Nodup) {a : α} (ha : a ∈ l) :
    ((l.filter p).map fun b => (key b, f b)).lookup (key a) = if p a then some (f a) else none := by
  induction l with
  | nil => cases ha
  | cons b rest ih =>
    rw [List.map_cons, List.nodup_cons] at hnodup
    rcases List.mem_cons.mp ha with rfl | hrest
    · by_cases hp : p a = true
      · simp [hp]
      · -- no other element has its key
        rw [List.filter_cons_of_neg hp, if_neg hp, List.lookup_eq_none_iff]
        intro c hc
        obtain ⟨d, hd, rfl⟩ := List.mem_map.mp hc
        have hne : key a ≠ key d := fun heq => hnodup.1 ?_
        · exact bne_iff_ne.mpr hne
        rw [heq]
        exact List.mem_map_of_mem (List.mem_filter.mp hd).1
    · have hne : key a ≠ key b := fun heq => hnodup.1 (heq ▸ List.mem_map_of_mem hrest)
      rw [← ih hnodup.2 hrest]
      by_cases hp : p b = true
      · rw [List.filter_cons_of_pos hp, List.map_cons, List.lookup_cons, beq_eq_false_iff_ne.mpr hne]
      · rw [List.filter_cons_of_neg hp]

theorem columnsOf_scopedRestrictions {t : SchemaTable} (ht : t ∈ E.schema.tables) :
    (scopedRestrictions E column).columnsOf t.key =
      if hasColumn E column t then [(E.schema.case.casefold column, t.key ++ "." ++ column)] else [] := by
  have hlookup : (scopedRestrictions E column).byTable.lookup t.key =
      if hasColumn E column t then some [(E.schema.case.casefold column, t.key ++ "." ++ column)] else none :=
    @lookup_map_filter SchemaTable (List (String × String)) (·.key)
      (fun t => [(E.schema.case.casefold column, t.key ++ "." ++ column)]) (hasColumn E column) _
      E.schema.keys_nodup t ht
  rw [JoinOnlyRestrictions.columnsOf, hlookup]
  split <;> rfl

/-- A table is restricted for a name when it has the column and the names are one case-folded. -/
theorem entry_scopedRestrictions {t : SchemaTable} (ht : t ∈ E.schema.tables) {name : String} :
    ((scopedRestrictions E column).entry E.schema.case t name).isSome = true ↔
      hasColumn E column t = true ∧
        E.schema.case.casefold name = E.schema.case.casefold column := by
  rw [JoinOnlyRestrictions.entry, columnsOf_scopedRestrictions ht, List.lookup_isSome_iff]
  by_cases hcolumn : hasColumn E column t = true
  · simp only [hcolumn, if_true, List.mem_singleton, exists_eq_left, beq_iff_eq, true_and]
  · simp [hcolumn]

/-- No restriction is on another name. -/
theorem casefold_of_entry {t : SchemaTable} {name : String}
    (h : ((scopedRestrictions E column).entry E.schema.case t name).isSome = true) :
    E.schema.case.casefold name = E.schema.case.casefold column ∧ tablesWith E column ≠ [] := by
  rw [JoinOnlyRestrictions.entry, List.lookup_isSome_iff] at h
  obtain ⟨c, hc, hname⟩ := h
  rw [JoinOnlyRestrictions.columnsOf] at hc
  cases hlookup : (scopedRestrictions E column).byTable.lookup t.key with
  | none =>
    rw [hlookup] at hc
    cases hc
  | some columns =>
    rw [hlookup, Option.getD_some] at hc
    obtain ⟨before, after, htables, -⟩ := List.lookup_eq_some_iff.mp hlookup
    have hmem : (t.key, columns) ∈ (scopedRestrictions E column).byTable := by
      rw [htables]
      exact List.mem_append_right _ List.mem_cons_self
    obtain ⟨u, hu, heq⟩ := List.mem_map.mp hmem
    rw [Prod.mk.injEq] at heq
    rw [← heq.2, List.mem_singleton] at hc
    subst hc
    exact ⟨beq_iff_eq.mp hname, List.ne_nil_of_mem hu⟩

theorem mem_names_scopedRestrictions {name : String} :
    name ∈ (scopedRestrictions E column).names ↔
      tablesWith E column ≠ [] ∧ name = E.schema.case.casefold column := by
  simp only [JoinOnlyRestrictions.names, scopedRestrictions, List.mem_flatMap, List.mem_map]
  constructor
  · rintro ⟨_, ⟨t, ht, rfl⟩, c, hc, rfl⟩
    rw [List.mem_singleton] at hc
    subst hc
    exact ⟨List.ne_nil_of_mem ht, rfl⟩
  · rintro ⟨hne, rfl⟩
    obtain ⟨t, ht⟩ := List.exists_mem_of_ne_nil _ hne
    exact ⟨_, ⟨t, ht, rfl⟩, _, List.mem_cons_self, rfl⟩

/-! ## The tables a reference may mean are tables of the schema -/

theorem mem_tables_of_sourceTable {S : Schema} {ctes : List String} {source : Expr} {t : SchemaTable}
    (h : sourceTable S ctes source = some t) : t ∈ S.tables := by
  unfold sourceTable at h
  split at h
  · exact mem_tables_of_resolveTableName h
  · cases h

theorem mem_tables_of_scopeTables {S : Schema} {ctes : List String} {select : Expr} {t : SchemaTable}
    (h : t ∈ scopeTables S ctes select) : t ∈ S.tables := by
  obtain ⟨source, -, hsource⟩ := List.mem_filterMap.mp h
  exact mem_tables_of_sourceTable hsource

theorem mem_tables_of_qualifiedTables {S : Schema} {ctes : List String} {q : String} {scopes : List Expr}
    {tables : List SchemaTable} (h : qualifiedTables S ctes q scopes = some tables) {t : SchemaTable}
    (ht : t ∈ tables) : t ∈ S.tables := by
  induction scopes with
  | nil => cases h
  | cons select outer ih =>
    rw [qualifiedTables] at h
    split at h
    · cases h
      obtain ⟨⟨label, found⟩, hp, hfound⟩ := List.mem_filterMap.mp ht
      obtain ⟨source, -, hsource⟩ := List.mem_map.mp (List.mem_filter.mp (List.mem_filter.mp hp).1).1
      cases hsource
      exact mem_tables_of_sourceTable hfound
    · exact ih h

theorem mem_tables_of_aliasLookup {S : Schema} {tree : Expr} {q : String} {t : SchemaTable}
    (h : aliasLookup (tableAliasMap S tree) q = some t) : t ∈ S.tables := by
  obtain ⟨before, after, hsplit, -⟩ := List.lookup_eq_some_iff.mp h
  have hmem : (q, t) ∈ tableAliasMap S tree := by
    rw [← List.mem_reverse, hsplit]
    exact List.mem_append_right _ List.mem_cons_self
  -- an alias and a bare name stand for the table of one table node
  have hresolved : ∀ p : Expr × SchemaTable, p ∈ ((findAll Cls.isTable tree).map (·.node)).filterMap
      (fun table => (resolveTableName S (cteNames S.case tree) table).map fun t => (table, t)) →
        p.2 ∈ S.tables := by
    intro p hp
    obtain ⟨table, -, htable⟩ := List.mem_filterMap.mp hp
    obtain ⟨u, hu, rfl⟩ := Option.map_eq_some_iff.mp htable
    exact mem_tables_of_resolveTableName hu
  rcases List.mem_append.mp hmem with halias | hname
  · obtain ⟨⟨table, u⟩, hp, hfound⟩ := List.mem_filterMap.mp halias
    have hu := hresolved _ hp
    dsimp only at hfound
    split at hfound
    · cases hfound
    · cases hfound
      exact hu
  · obtain ⟨⟨table, u⟩, hp, hfound⟩ := List.mem_map.mp (List.mem_filter.mp hname).1
    have hu := hresolved _ hp
    rw [Prod.mk.injEq] at hfound
    rwa [hfound.2] at hu

theorem mem_tables_of_expandStar {S : Schema} {tree : Expr} {star : ExprOcc} {t : SchemaTable}
    (h : t ∈ (expandStar S tree star).tables) : t ∈ S.tables := by
  unfold expandStar at h
  dsimp only at h
  split at h
  · dsimp only at h
    split at h
    · rename_i hfound
      exact mem_tables_of_qualifiedTables hfound h
    · exact mem_tables_of_aliasLookup (Option.mem_toList.mp h)
  · cases hselect : enclosingSelect star with
    | none =>
      rw [hselect] at h
      cases h
    | some select =>
      rw [hselect] at h
      exact mem_tables_of_scopeTables h

/-! ## One node under the entries -/

theorem checkJoinOnlyColumn_scoped_iff {o : ExprOcc} :
    checkJoinOnlyColumn E.schema tree (scopedRestrictions E column) o = .ok () ↔
      (o.node.name ≠ "" → o.node.name ≠ "*" → Namesake E column o.node.name →
        isJoinKeyOperand o = false →
          restrictedTablesOf E.schema tree (scopedRestrictions E column) o = []) := by
  have hmeans : ∀ t ∈ restrictedTablesOf E.schema tree (scopedRestrictions E column) o,
      E.schema.case.casefold o.node.name = E.schema.case.casefold column ∧ tablesWith E column ≠ [] :=
    fun t ht => casefold_of_entry (isSome_entry_of_mem_restrictedTablesOf ht)
  unfold checkJoinOnlyColumn
  dsimp only
  cases htables : restrictedTablesOf E.schema tree (scopedRestrictions E column) o with
  | nil => simp
  | cons t rest =>
    obtain ⟨hfolded, hne⟩ := hmeans t (htables ▸ List.mem_cons_self)
    have hnamesake : Namesake E column o.node.name ↔
        E.schema.case.lower o.node.name ∈ (scopedRestrictions E column).names := by
      rw [mem_names_scopedRestrictions, Namesake, and_iff_left hfolded, and_iff_right hne]
    rw [hnamesake]
    by_cases hskip : o.node.name = "" ∨ o.node.name = "*" ∨
        E.schema.case.lower o.node.name ∉ (scopedRestrictions E column).names
    · rw [if_pos hskip]
      refine iff_of_true rfl fun hempty hstar hnamed _ => ?_
      rcases hskip with h | h | h
      exacts [absurd h hempty, absurd h hstar, absurd hnamed h]
    · rw [if_neg hskip]
      obtain ⟨hempty, hrest⟩ := not_or.mp hskip
      obtain ⟨hstar, hnamed⟩ := not_or.mp hrest
      simp [hempty, hstar, not_not.mp hnamed]

theorem checkJoinOnlyJoin_scoped_iff {o : ExprOcc} {method side kind : String}
    (hcls : o.node.cls = .join method side kind) :
    checkJoinOnlyJoin E.schema tree (scopedRestrictions E column) o = .ok () ↔
      ∀ s ∈ enclosingSelect o, ∀ t ∈ scopeTables E.schema (cteNames E.schema.case tree) s.node,
        hasColumn E column t = true → (∀ ident ∈ o.node.slot .using_, ¬ Namesake E column ident.name) ∧
          E.schema.case.upper method ≠ "NATURAL" := by
  unfold checkJoinOnlyJoin
  cases enclosingSelect o with
  | none => simp
  | some s =>
    have hknown : ∀ t ∈ scopeTables E.schema (cteNames E.schema.case tree) s.node, t ∈ E.schema.tables :=
      fun t ht => mem_tables_of_scopeTables ht
    simp only [hcls, Option.mem_def, Option.some.injEq, forall_eq']
    generalize scopeTables E.schema (cteNames E.schema.case tree) s.node = tables at hknown ⊢
    have hused : checkAll (fun ident : Expr =>
        if E.schema.case.lower ident.name ∈ (scopedRestrictions E column).names then
          checkAll (fun t => refuseSome ((scopedRestrictions E column).entry E.schema.case t ident.name)
            fun entry => joinOnlyRejection entry t.key ident.name) tables
        else .ok ()) (o.node.slot .using_) = .ok () ↔
          ∀ t ∈ tables, hasColumn E column t = true →
            ∀ ident ∈ o.node.slot .using_, ¬ Namesake E column ident.name := by
      rw [checkAll_ok_iff]
      constructor
      · intro hall t ht hcolumn ident hident hnamesake
        have hcheck := hall ident hident
        have hnamed : E.schema.case.lower ident.name ∈ (scopedRestrictions E column).names :=
          mem_names_scopedRestrictions.mpr
            ⟨List.ne_nil_of_mem (mem_tablesWith.mpr ⟨hknown t ht, hcolumn⟩), hnamesake.1⟩
        rw [if_pos hnamed, checkAll_ok_iff] at hcheck
        have hnone := refuseSome_ok_iff.mp (hcheck t ht)
        have hsome := (entry_scopedRestrictions (hknown t ht)).mpr ⟨hcolumn, hnamesake.2⟩
        rw [hnone] at hsome
        cases hsome
      · intro hall ident hident
        by_cases hnamed : E.schema.case.lower ident.name ∈ (scopedRestrictions E column).names
        · rw [if_pos hnamed, checkAll_ok_iff]
          intro t ht
          rw [refuseSome_ok_iff, ← Option.not_isSome_iff_eq_none, entry_scopedRestrictions (hknown t ht)]
          rintro ⟨hcolumn, hfolded⟩
          exact hall t ht hcolumn ident hident ⟨(mem_names_scopedRestrictions.mp hnamed).2, hfolded⟩
        · rw [if_neg hnamed]
    -- whatever the refusal says, it is made when the first restricted column of a table is there
    have hnatural : ∀ refusal : SchemaTable → String × String → Rejection,
        (if E.schema.case.upper method = "NATURAL" then
          checkAll (fun t : SchemaTable =>
            refuseSome ((scopedRestrictions E column).columnsOf t.key).head? (refusal t)) tables
        else .ok ()) = .ok () ↔
          ∀ t ∈ tables, hasColumn E column t = true → E.schema.case.upper method ≠ "NATURAL" := by
      intro refusal
      by_cases hmethod : E.schema.case.upper method = "NATURAL"
      · rw [if_pos hmethod, checkAll_ok_iff]
        refine forall₂_congr fun t ht => ?_
        rw [refuseSome_ok_iff, columnsOf_scopedRestrictions (hknown t ht)]
        cases hasColumn E column t with
        | true => simp [hmethod]
        | false => simp
      · rw [if_neg hmethod]
        exact iff_of_true rfl fun _ _ _ => hmethod
    rw [check_then_ok_iff, hused, hnatural]
    exact ⟨fun h t ht hcolumn => ⟨h.1 t ht hcolumn, h.2 t ht hcolumn⟩,
      fun h => ⟨fun t ht hcolumn => (h t ht hcolumn).1, fun t ht hcolumn => (h t ht hcolumn).2⟩⟩

/-- A list that maps to a list has a value for every element. -/
theorem exists_of_mapM_eq_some {α β : Type} {f : α → Option β} {l : List α} {l' : List β}
    (h : l.mapM f = some l') : ∀ a ∈ l, ∃ b, f a = some b := by
  induction l generalizing l' with
  | nil => exact fun a ha => absurd ha List.not_mem_nil
  | cons a rest ih =>
    rw [List.mapM_cons] at h
    obtain ⟨b, hb, h⟩ := Option.bind_eq_some_iff.mp h
    obtain ⟨bs, hbs, -⟩ := Option.bind_eq_some_iff.mp h
    exact List.forall_mem_cons.mpr ⟨⟨b, hb⟩, ih hbs⟩

/-- A star that the plain denial can expand has no source the join-only pass cannot enumerate. -/
theorem expandStar_resolved {o : ExprOcc} {tables : List SchemaTable}
    (h : starTables E tree o = some tables) : (expandStar E.schema tree o).unresolved = false := by
  unfold starTables at h
  unfold expandStar
  dsimp only
  split
  · rfl
  · rename_i hnone
    rw [hnone] at h
    dsimp only at h
    cases hselect : enclosingSelect o with
    | none =>
      rw [hselect] at h
      cases h
    | some s =>
      rw [hselect] at h
      show (directFromSources s.node).any _ = false
      rw [List.any_eq_false]
      intro source hsource
      obtain ⟨t, ht⟩ := exists_of_mapM_eq_some h source hsource
      unfold sourceTable at ht
      split at ht
      · rename_i htable
        simp [htable, ht]
      · cases ht

theorem checkJoinOnlyStar_scoped_iff {o : ExprOcc} {tables : List SchemaTable}
    (htables : starTables E tree o = some tables)
    (hclean : ∀ t ∈ tables, ∀ c ∈ E.schema.columnsByTable t,
      E.schema.case.upper c ≠ E.schema.case.upper column) :
    checkJoinOnlyStar E.repr E.schema tree (scopedRestrictions E column) o = .ok () ↔
      (isCountStar o = false → ∀ t ∈ (expandStar E.schema tree o).tables, hasColumn E column t = true →
        (∃ tables ∈ starTables E tree o, t ∈ tables) ∧
          E.schema.case.upper (E.schema.case.lower column) = E.schema.case.upper column) := by
  have hknown : ∀ t ∈ (expandStar E.schema tree o).tables, t ∈ E.schema.tables :=
    fun t ht => mem_tables_of_expandStar ht
  have hrefused : ∀ t ∈ (expandStar E.schema tree o).tables,
      (scopedRestrictions E column).columnsOf t.key = [] ↔ hasColumn E column t = false := by
    intro t ht
    rw [columnsOf_scopedRestrictions (hknown t ht)]
    cases hasColumn E column t with
    | true => simp
    | false => simp
  unfold checkJoinOnlyStar
  by_cases hcount : isCountStar o = true
  · rw [if_pos hcount]
    exact iff_of_true rfl fun hnot => absurd hcount (by rw [hnot]; decide)
  · rw [if_neg hcount]
    dsimp only
    rw [check_then_ok_iff, refuseIf_ok_iff, refuseIf_ok_iff, not_not, entries_eq_nil_iff,
      expandStar_resolved htables]
    constructor
    · rintro ⟨hnone, -⟩ _ t ht hcolumn
      rw [(hrefused t ht).mp (hnone t ht)] at hcolumn
      cases hcolumn
    · intro hseen
      refine ⟨fun t ht => (hrefused t ht).mpr ?_, Bool.false_ne_true⟩
      by_contra hcolumn
      rw [Bool.not_eq_false] at hcolumn
      obtain ⟨⟨tables', htables', hmem⟩, hupper⟩ := hseen (Bool.not_eq_true _ ▸ hcount) t ht hcolumn
      rw [Option.mem_def, htables, Option.some.injEq] at htables'
      subst htables'
      exact hclean t hmem _ (decide_eq_true_eq.mp hcolumn) hupper

/-- **The entries `T.C` let a statement pass** that the denied names let pass: exactly when the denied
names are looked for wherever a join-only column is refused. -/
theorem joinOnlyAllows_scoped_iff {denied : List String} (hdenied : E.schema.case.upper column ∈ denied)
    (h : ∀ o, InTree tree o → DenialAllows E tree denied o)
    (hresolves : ∀ t ∈ tablesWith E column, EntryResolves E column t) :
    (∀ o, InTree tree o → JoinOnlyAllows E tree (scopedRestrictions E column) o) ↔
      DenialSees E column tree := by
  have hstars : ∀ o, InTree tree o → o.node.cls = .star →
      (checkJoinOnlyStar E.repr E.schema tree (scopedRestrictions E column) o = .ok () ↔
        (isCountStar o = false → ∀ t ∈ (expandStar E.schema tree o).tables, hasColumn E column t = true →
          (∃ tables ∈ starTables E tree o, t ∈ tables) ∧
            E.schema.case.upper (E.schema.case.lower column) = E.schema.case.upper column)) := by
    intro o ho hcls
    obtain ⟨tables, htables, hclean⟩ :=
      checkDeniedStar_ok_iff.mp ((h o ho).star hcls (List.ne_nil_of_mem hdenied))
    exact checkJoinOnlyStar_scoped_iff htables fun t ht c hc heq => hclean t ht c hc (heq ▸ hdenied)
  have hempty : (scopedRestrictions E column).byTable = [] ↔ tablesWith E column = [] := List.map_eq_nil_iff
  constructor
  · intro hjoin
    by_cases hnone : tablesWith E column = []
    · -- nothing is scoped, and nothing would be
      have hno : ∀ t ∈ E.schema.tables, hasColumn E column t = true → False := fun t ht hcolumn =>
        absurd (mem_tablesWith.mpr ⟨ht, hcolumn⟩) (hnone ▸ List.not_mem_nil)
      refine ⟨hresolves, fun o ho _ _ _ _ _ hne => ?_, ?_, ?_⟩
      · obtain ⟨t, ht⟩ := List.exists_mem_of_ne_nil _ hne
        exact absurd hnone (casefold_of_entry (isSome_entry_of_mem_restrictedTablesOf ht)).2
      · exact fun o ho method side kind _ s _ t ht hcolumn => (hno t (mem_tables_of_scopeTables ht) hcolumn).elim
      · exact fun o ho _ _ t ht hcolumn => (hno t (mem_tables_of_expandStar ht) hcolumn).elim
    · have hR : (scopedRestrictions E column).byTable ≠ [] := fun hnil => hnone (hempty.mp hnil)
      refine ⟨hresolves, fun o ho hcls hname hstar hnamesake hoperand hne => ?_, ?_, ?_⟩
      · exact absurd (checkJoinOnlyColumn_scoped_iff.mp ((hjoin o ho).column hcls hR) hname hstar hnamesake
          hoperand) hne
      · intro o ho method side kind hcls
        exact (checkJoinOnlyJoin_scoped_iff hcls).mp ((hjoin o ho).join (by rw [hcls]; rfl) hR)
      · exact fun o ho hcls => (hstars o ho hcls).mp ((hjoin o ho).star hcls hR)
  · intro hsees o ho
    refine ⟨fun hcls _ => ?_, fun hcls _ => ?_, fun hcls _ => ?_⟩
    · refine checkJoinOnlyColumn_scoped_iff.mpr fun hname hstar hnamesake hoperand => ?_
      by_contra hne
      have hupper := hsees.columns o ho hcls hname hstar hnamesake hoperand hne
      exact (h o ho).column hcls hname hstar (hupper ▸ hdenied)
    · cases hjoin : o.node.cls with
      | join method side kind =>
        exact (checkJoinOnlyJoin_scoped_iff hjoin).mpr (hsees.joins o ho method side kind hjoin)
      | _ =>
        rw [hjoin] at hcls
        cases hcls
    · exact (hstars o ho hcls).mpr (hsees.stars o ho hcls)

/-- **Plain denial against scoped denial**: a statement accepted with the column denied is accepted with
the column scoped on every table instead exactly when the plain denial sees it wherever the join-only
pass would refuse it. -/
theorem scopedEntries_accept_iff {entries entries' : List String}
    (hinstead : ScopedInstead E column entries entries')
    (haccepted : validateSqlWith E dialect entries [some tree] = .ok ()) :
    validateSqlWith E dialect entries' [some tree] = .ok () ↔ DenialSees E column tree := by
  obtain ⟨policy, rest, hparse, hdenied, hrest, hparse'⟩ := hinstead
  have hbase := validateSqlWith_nil_of_ok haccepted
  have hallowed : ∀ o, InTree tree o → DenialAllows E tree policy.denied o := by
    obtain ⟨policy', hparse'', hresolves⟩ := policy_of_validateSqlWith haccepted
    rw [hparse, Except.ok.injEq] at hparse''
    subst hparse''
    obtain ⟨R, hR⟩ := hresolves (executingSource E tree)
    exact ((validateSqlWith_ok_iff hbase hparse hR).mp haccepted).1
  by_cases hresolves : ∀ t ∈ tablesWith E column, EntryResolves E column t
  · obtain ⟨R, hR⟩ := (@resolveJoinOnly_scopedColumns E column (executingSource E tree)).mpr hresolves
    have hscoped := eq_scopedRestrictions hR
    subst hscoped
    rw [validateSqlWith_ok_iff hbase hparse' hR, ← joinOnlyAllows_scoped_iff hdenied hallowed hresolves]
    exact and_iff_right fun o ho => (hallowed o ho).mono hrest
  · refine iff_of_false (fun hok => hresolves ?_) fun hsees => hresolves hsees.resolves
    obtain ⟨policy', hparse'', hboth⟩ := policy_of_validateSqlWith hok
    rw [hparse', Except.ok.injEq] at hparse''
    subst hparse''
    exact resolveJoinOnly_scopedColumns.mp (hboth (executingSource E tree))

/-! ## A join on a denied column -/

/-- `SELECT c.Name FROM sales.Customer AS c JOIN sales.Order AS o USING (ID)`. -/
def customersUsingId : Expr :=
  Expr.selectFrom [] [Expr.columnRef "c" "Name"] (Expr.tableRef "sales" "Customer" "c")
    [.ofCls (.join "" "" "") [(.this, Expr.tableRef "sales" "Order" "o"), (.using_, Expr.ident "ID")]]

/-- The two lists of entries for `ID`. -/
theorem scopedInstead_id :
    ScopedInstead salesEnv "ID" ["ID"] ["sales.Customer.ID", "sales.Order.ID"] :=
  ⟨{ denied := ["ID"] }, [], by decide, by decide, List.nil_subset _, by decide⟩

/-- **A denied column joins**: with `ID` denied outright the statement is accepted, with `ID` scoped on
every table that has it the statement is refused. -/
theorem customersUsingId_not_dominated :
    ScopedInstead salesEnv "ID" ["ID"] ["sales.Customer.ID", "sales.Order.ID"] ∧
    validateSqlWith salesEnv .postgres ["ID"] [some customersUsingId] = .ok () ∧
    ∃ e, validateSqlWith salesEnv .postgres ["sales.Customer.ID", "sales.Order.ID"]
        [some customersUsingId] = .error e ∧ e.reason = .joinOnlyColumn :=
  ⟨scopedInstead_id, by rfl, _, by rfl, rfl⟩

/-- Without the `USING` the plain denial sees all there is. -/
theorem customerNames_denialSees : DenialSees salesEnv "ID"
    (Expr.selectFrom [] [Expr.columnRef "c" "Name"] (Expr.tableRef "sales" "Customer" "c")) :=
  (@scopedEntries_accept_iff salesEnv "ID" _ .postgres _ _ scopedInstead_id (by rfl)).mp (by rfl)

end LocalSqlAgent
