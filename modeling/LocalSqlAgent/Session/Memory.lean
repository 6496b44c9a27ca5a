import LocalSqlAgent.Lib.OrderedDict
import LocalSqlAgent.Security.PolicyOrder
import LocalSqlAgent.Retrieval.DimensionVocabulary

/-! # Remembered filters and the column policy

`session.memory` and the memory index of `api.v2_routes`: a remembered value replaces a default
assumption unless the column of its key is denied, by a comparison of this module's own: the column as
the configuration writes it against the entries as the key has them.

* **`applyMemoryToAssumptions`**, **`getMemory`**: the two places that compare.
* **`validate_namingQuery_ok_iff`**: what the guard makes of a query that names the column.
* **`obeysPolicy_iff`**: the memory agrees with the guard exactly when an entry is written as the column
  is whenever the entries name it to the guard. -/

namespace LocalSqlAgent

/-! ## Memory and assumptions -/

/-- `Assumption.source`. -/
inductive AssumptionSource where
  | question
  | session
  | default
  | policy
  | memory
  deriving DecidableEq, Repr

/-- `Assumption`. -/
structure Assumption where
  field : String
  value : String
  source : AssumptionSource
  editable : Bool := true
  deriving DecidableEq, Repr

/-- `MemoryKey`: a declared preference. -/
structure MemoryKey where
  /-- The filter it contributes, a table of the schema. -/
  filterKey : String
  fieldName : String
  /-- The column the value constrains. -/
  column : String
  options : List String
  maxLength : ℤ
  deriving DecidableEq, Repr

/-- `MemoryEntry`: a stored value. -/
structure MemoryEntry where
  key : String
  field : String
  value : String
  updatedAt : String
  deriving DecidableEq, Repr

/-- What `apply_memory_to_assumptions` returns. -/
structure AppliedMemory where
  assumptions : List Assumption
  warnings : List String := []
  /-- The values that changed an assumption. -/
  used : OrderedDict String String := ∅

/-- The first default assumption of the entry's field, replaced; `none` when there is none. -/
def replaceDefault (entry : MemoryEntry) : List Assumption → Option (List Assumption)
  | [] => none
  | a :: rest =>
    if a.field = entry.field ∧ a.source = .default then
      some ({ a with value := entry.value, source := .memory } :: rest)
    else (replaceDefault entry rest).map (a :: ·)

/-- The warning about an entry that is dropped. -/
def droppedWarning (entry : MemoryEntry) (column : String) : String :=
  "مقدار به‌خاطرسپرده‌شدهٔ «" ++ entry.field ++ "» به دلیل محدودیت دسترسی به ستون " ++
    "«" ++ column ++ "» برای این کاربر در این پرسش اعمال نشد."

section Apply

variable (keys : OrderedDict String MemoryKey)

/-- One turn of the loop: an undeclared key is skipped, one on a denied column warned about. -/
def AppliedMemory.step (denied : List String) (state : AppliedMemory)
    (stored : DictEntry String MemoryEntry) : AppliedMemory :=
  match keys.lookup stored.1 with
  | none => state
  | some cfg =>
    if cfg.column ∈ denied then
      { state with warnings := state.warnings ++ [droppedWarning stored.2 cfg.column] }
    else
      match replaceDefault stored.2 state.assumptions with
      | some assumptions =>
        { state with assumptions, used := state.used.assign stored.1 stored.2.value }
      | none => state

/-- **`apply_memory_to_assumptions`.** -/
def applyMemoryToAssumptions (assumptions : List Assumption)
    (memory : OrderedDict String MemoryEntry) (deniedColumns : Option (List String)) : AppliedMemory :=
  memory.entries.foldl (AppliedMemory.step keys (deniedColumns.getD [])) { assumptions }

/-- `MemoryEntryResponse`. -/
structure MemoryEntryResponse where
  key : String
  field : String
  value : String
  updatedAt : String
  applicable : Bool
  deriving DecidableEq, Repr

/-- `RememberableKeyResponse`. -/
structure RememberableKeyResponse where
  key : String
  field : String
  options : List String
  maxLength : ℤ
  deriving DecidableEq, Repr

/-- `MemoryIndexResponse`. -/
structure MemoryIndexResponse where
  entries : List MemoryEntryResponse
  rememberable : List RememberableKeyResponse
  deriving DecidableEq, Repr

/-- **`get_memory`**: the stored entries with whether they would be applied, and the declared keys. -/
def getMemory (stored : OrderedDict String MemoryEntry) (deniedColumns : List String) :
    MemoryIndexResponse where
  entries := stored.entries.map fun row =>
    { key := row.1, field := row.2.field, value := row.2.value, updatedAt := row.2.updatedAt
      applicable := (keys.lookup row.1).any fun cfg => decide (cfg.column ∉ deniedColumns) }
  rememberable := keys.entries.map fun key =>
    { key := key.1, field := key.2.fieldName, options := key.2.options, maxLength := key.2.maxLength }

/-- A used key is declared and its column is not among the entries. -/
theorem notMem_of_used {assumptions : List Assumption} {memory : OrderedDict String MemoryEntry}
    {deniedColumns : Option (List String)} {key : String}
    (h : key ∈ (applyMemoryToAssumptions keys assumptions memory deniedColumns).used) :
    ∃ cfg, keys.lookup key = some cfg ∧ cfg.column ∉ deniedColumns.getD [] := by
  suffices hrun : ∀ (stored : List (DictEntry String MemoryEntry)) (state : AppliedMemory),
      (∀ k ∈ state.used, ∃ cfg, keys.lookup k = some cfg ∧ cfg.column ∉ deniedColumns.getD []) →
      ∀ k ∈ (stored.foldl (AppliedMemory.step keys (deniedColumns.getD [])) state).used,
        ∃ cfg, keys.lookup k = some cfg ∧ cfg.column ∉ deniedColumns.getD [] by
    exact hrun memory.entries _ (fun k hk => absurd hk (AList.notMem_empty k)) key h
  intro stored
  induction stored with
  | nil => exact fun state hstate => hstate
  | cons row rest ih =>
    intro state hstate
    refine ih _ fun k hk => ?_
    unfold AppliedMemory.step at hk
    cases hcfg : keys.lookup row.1 with
    | none =>
      rw [hcfg] at hk
      exact hstate k hk
    | some cfg =>
      rw [hcfg] at hk
      dsimp only at hk
      split at hk
      · exact hstate k hk
      · rename_i hallowed
        cases hreplace : replaceDefault row.2 state.assumptions with
        | none =>
          rw [hreplace] at hk
          exact hstate k hk
        | some assumptions =>
          rw [hreplace] at hk
          rcases OrderedDict.mem_assign.mp hk with rfl | hk
          · exact ⟨cfg, hcfg, hallowed⟩
          · exact hstate k hk

end Apply

/-! ## A query that names the column -/

/-- `SELECT column FROM ref`. -/
def namingQuery (ref : Expr) (column : String) : Expr :=
  Expr.selectFrom [] [Expr.columnRef "" column] ref

/-- The nodes a written table name has below it. -/
def Cls.isNamePart : Cls → Bool
  | .identifier .. | .dot | .tableAlias => true
  | _ => false

/-- A table written by its name and nothing else. -/
structure PlainReference (ref : Expr) : Prop where
  isTable : ref.cls = .table
  below : ∀ o, InTree ref o → o.node = ref ∨ o.node.cls.isNamePart = true

section Naming

variable (E : GuardEnv) (dialect : Dialect)

/-- **A query names the column of a key**: it selects the column from the key's table, and the guard
accepts it without a policy. -/
structure NamesColumn (cfg : MemoryKey) (ref : Expr) (t : SchemaTable) : Prop where
  plain : PlainReference ref
  table : resolveTableName E.schema [] ref = some t
  filterKey : t.key = cfg.filterKey
  column_ne_empty : cfg.column ≠ ""
  column_ne_star : cfg.column ≠ "*"
  accepted : validateSqlWith E dialect [] [some (namingQuery ref cfg.column)] = .ok ()

/-- **The memory obeys the column policy** under a list of entries: what is used, and what is listed as
applicable, constrains a column the guard lets a query name; and what is not applicable does not. -/
structure ObeysPolicy (keys : OrderedDict String MemoryKey) (entries : List String) : Prop where
  used : ∀ assumptions memory key,
    key ∈ (applyMemoryToAssumptions keys assumptions memory (some entries)).used →
    ∃ cfg, keys.lookup key = some cfg ∧ ∀ ref t, NamesColumn E dialect cfg ref t →
      validateSqlWith E dialect entries [some (namingQuery ref cfg.column)] = .ok ()
  applicable : ∀ memory, ∀ row ∈ (getMemory keys memory entries).entries, ∀ cfg,
    keys.lookup row.key = some cfg → ∀ ref t, NamesColumn E dialect cfg ref t →
      (row.applicable = true ↔
        validateSqlWith E dialect entries [some (namingQuery ref cfg.column)] = .ok ())

/-- The first entry for its restriction. -/
def FirstEntry (entries : List String) (s : ScopedColumn) : Prop :=
  (entries.filterMap (scopedOf E.schema.case E.repr)).find?
    (·.key E.schema.case = s.key E.schema.case) = some s

/-- An entry in force on a source restricts a column written, case-folded, as a text is in lower case. -/
def Mentions (source : Option String) (column : String) (s : ScopedColumn) : Prop :=
  ∃ r, resolveEntry E s = .ok r ∧ otherSource E source r.1 = false ∧
    E.schema.case.casefold s.column = E.schema.case.lower column

/-- **The entries name a column to the guard**: outright, whatever the case and the format characters;
through a join-only entry of its table; or because the entries cannot be read or resolved. -/
def NamedToGuard (entries : List String) (source : Option String) (t : SchemaTable)
    (column : String) : Prop :=
  (∃ e ∈ entries, Malformed E.schema.case E.repr e) ∨
  NamedInUpperCase E.schema.case entries column ∨
  (∃ s, FirstEntry E entries s ∧ ∀ r, resolveEntry E s ≠ .ok r) ∨
  (∃ s, FirstEntry E entries s ∧ Mentions E source column s) ∧
    ∃ s, FirstEntry E entries s ∧ covers E source t column s = true

end Naming

/-- The column of a query that names one. -/
def columnOcc (ref : Expr) (column : String) : ExprOcc :=
  ⟨Expr.columnRef "" column, [⟨namingQuery ref column, .expressions, []⟩]⟩

/-- **The nodes of a query that names a column**: the select, the column, its name, the `FROM` clause
and the nodes of the table. -/
theorem inTree_namingQuery {ref : Expr} {column : String} {o : ExprOcc}
    (h : InTree (namingQuery ref column) o) :
    o = Occ.root (namingQuery ref column) ∨ o = columnOcc ref column ∨
      o.node = Expr.ident column ∨ o.node = .ofCls .fromClause [(.this, ref)] ∨
      ∃ o', InTree ref o' ∧ o'.node = o.node := by
  induction h with
  | root => exact Or.inl rfl
  | @child o c ho hc ih =>
    obtain ⟨k, n, pre, post, hsplit, rfl⟩ := Occ.mem_children.mp hc
    rcases ih with rfl | rfl | hident | hfrom | ⟨o', ho', hnode⟩
    · -- below the select: the column, then the clause
      have hchildren : [(Arg.expressions, Expr.columnRef "" column),
          (Arg.from_, .ofCls .fromClause [(.this, ref)])] = pre ++ (k, n) :: post := hsplit
      cases pre with
      | nil =>
        cases hchildren
        exact Or.inr (Or.inl rfl)
      | cons p pre =>
        have htail := (List.cons.inj hchildren).2
        cases pre with
        | nil =>
          cases htail
          exact Or.inr (Or.inr (Or.inr (Or.inl rfl)))
        | cons q pre =>
          have hnil := (List.cons.inj htail).2
          exact absurd hnil.symm (by simp)
    · have hchildren : [(Arg.this, Expr.ident column)] = pre ++ (k, n) :: post := hsplit
      have hmem : (k, n) ∈ [(Arg.this, Expr.ident column)] := hchildren ▸ by simp
      cases List.mem_singleton.mp hmem
      exact Or.inr (Or.inr (Or.inl rfl))
    · rw [hident] at hsplit
      have hnil : ([] : List (Arg × Expr)) = pre ++ (k, n) :: post := hsplit
      exact absurd hnil.symm (by simp)
    · rw [hfrom] at hsplit
      have hchildren : [(Arg.this, ref)] = pre ++ (k, n) :: post := hsplit
      have hmem : (k, n) ∈ [(Arg.this, ref)] := hchildren ▸ by simp
      cases List.mem_singleton.mp hmem
      exact Or.inr (Or.inr (Or.inr (Or.inr ⟨Occ.root ref, InTree.root, rfl⟩)))
    · have hmem : (k, n) ∈ o'.node.children := by
        rw [hnode, hsplit]
        simp
      obtain ⟨pre', hchild⟩ := ho'.exists_child hmem
      exact Or.inr (Or.inr (Or.inr (Or.inr ⟨_, hchild, rfl⟩)))

theorem inTree_columnOcc (ref : Expr) (column : String) :
    InTree (namingQuery ref column) (columnOcc ref column) :=
  InTree.root.child (Occ.mem_children.mpr ⟨_, _, [], _, rfl, rfl⟩)

/-- A class that none of these nodes has is nowhere in the query. -/
theorem findAll_namingQuery_eq_nil {ref : Expr} (hplain : PlainReference ref) {column : String}
    {p : Cls → Bool} (hp : ∀ c, p c = true → c ≠ .select ∧ c ≠ .column ∧ c ≠ .fromClause ∧
      c ≠ .table ∧ c.isNamePart = false) : findAll p (namingQuery ref column) = [] := by
  refine List.eq_nil_iff_forall_not_mem.mpr fun o ho => ?_
  obtain ⟨hin, hcls⟩ := mem_findAll.mp ho
  obtain ⟨hselect, hcolumn, hfrom, htable, hname⟩ := hp _ hcls
  rcases inTree_namingQuery hin with rfl | rfl | hident | hclause | ⟨o', ho', hnode⟩
  · exact hselect rfl
  · exact hcolumn rfl
  · rw [hident] at hname
    exact absurd (show true = false from hname) (by decide)
  · rw [hclause] at hfrom
    exact hfrom rfl
  · rw [← hnode] at htable hname
    rcases hplain.below o' ho' with hroot | hpart
    · exact htable (hroot ▸ hplain.isTable)
    · rw [hpart] at hname
      cases hname

/-- The one column of the query. -/
theorem mem_columns_namingQuery {ref : Expr} (hplain : PlainReference ref) {column : String} {o : ExprOcc} :
    o ∈ findAll Cls.isColumn (namingQuery ref column) ↔ o = columnOcc ref column := by
  rw [mem_findAll]
  constructor
  · rintro ⟨hin, hcls⟩
    rcases inTree_namingQuery hin with rfl | rfl | hident | hclause | ⟨o', ho', hnode⟩
    · cases hcls
    · rfl
    · rw [hident] at hcls
      cases hcls
    · rw [hclause] at hcls
      cases hcls
    · rw [← hnode, Cls.isColumn_iff] at hcls
      rcases hplain.below o' ho' with hroot | hpart
      · rw [hroot, hplain.isTable] at hcls
        cases hcls
      · rw [hcls] at hpart
        cases hpart
  · rintro rfl
    exact ⟨inTree_columnOcc ref column, rfl⟩

/-! ## The guard on that query -/

section Guard

variable {E : GuardEnv} {dialect : Dialect}

theorem cteNames_namingQuery {ref : Expr} (hplain : PlainReference ref) {column : String}
    {C : CaseMaps} : cteNames C (namingQuery ref column) = [] := by
  unfold cteNames
  rw [findAll_namingQuery_eq_nil hplain fun c hc => ?_]
  · rfl
  · rw [Cls.isCte_iff.mp hc]
    decide

/-- The column loop refuses the name when it is denied. -/
theorem checkColumn_namingQuery_ok_iff {ref : Expr} {column : String} (hempty : column ≠ "")
    (hstar : column ≠ "*") {denied : List String} :
    checkColumn E (namingQuery ref column) denied (Expr.columnRef "" column) = .ok () ↔
      E.schema.case.upper column ∉ denied := by
  have hname : (Expr.columnRef "" column).name = column := rfl
  have hqualifier : E.schema.case.lower (Expr.columnRef "" column).qualifier = "" :=
    (E.schema.case.lower_eq_empty "").mpr rfl
  unfold checkColumn
  simp only [hname, hqualifier, if_neg (not_or.mpr ⟨hempty, hstar⟩), check_then_ok_iff, refuseIf_ok_iff,
    if_true, and_true]

/-- The restricted tables of the column: its table, when that restricts it. -/
theorem restrictedTablesOf_namingQuery {ref : Expr} (hplain : PlainReference ref) {t : SchemaTable}
    (htable : resolveTableName E.schema [] ref = some t) {R : JoinOnlyRestrictions} {column : String} :
    restrictedTablesOf E.schema (namingQuery ref column) R (columnOcc ref column) =
      [t].filter fun t => (R.entry E.schema.case t column).isSome := by
  have hqualifier : E.schema.case.lower (columnOcc ref column).node.qualifier = "" :=
    (E.schema.case.lower_eq_empty "").mpr rfl
  have hscopes : (enclosingSelects (columnOcc ref column)).map (·.node) = [namingQuery ref column] := rfl
  have hsources : directFromSources (namingQuery ref column) = [ref] := rfl
  have htables : scopeTables E.schema [] (namingQuery ref column) = [t] := by
    rw [scopeTables, hsources, List.filterMap_cons, sourceTable, if_pos hplain.isTable, htable]
    rfl
  have hname : (columnOcc ref column).node.name = column := rfl
  unfold restrictedTablesOf
  simp only [hqualifier, hscopes, hname, ne_eq, not_true_eq_false, if_false, cteNames_namingQuery hplain,
    List.cons_ne_self]
  unfold unqualifiedTables unqualifiedTables
  simp only [htables, R.entry_lower]
  cases hentry : (R.entry E.schema.case t column).isSome with
  | true => simp [hentry]
  | false => simp [hentry]

/-- The join-only pass refuses the query when the column's table restricts it, as long as some
restriction is written like the column in lower case. -/
theorem enforceJoinOnly_namingQuery_ok_iff {ref : Expr} (hplain : PlainReference ref) {t : SchemaTable}
    (htable : resolveTableName E.schema [] ref = some t) {R : JoinOnlyRestrictions} {column : String}
    (hempty : column ≠ "") (hstar : column ≠ "*") :
    enforceJoinOnly E.repr E.schema (namingQuery ref column) R = .ok () ↔
      ¬ (E.schema.case.lower column ∈ R.names ∧ (R.entry E.schema.case t column).isSome = true) := by
  have hjoins : findAll Cls.isJoin (namingQuery ref column) = [] :=
    findAll_namingQuery_eq_nil hplain fun c hc => by
      cases c <;> simp_all [Cls.isJoin, Cls.isNamePart]
  have hstars : findAll Cls.isStar (namingQuery ref column) = [] :=
    findAll_namingQuery_eq_nil hplain fun c hc => by
      rw [Cls.isStar_iff.mp hc]
      decide
  have hname : (columnOcc ref column).node.name = column := rfl
  have hoperand : isJoinKeyOperand (columnOcc ref column) = false := rfl
  unfold enforceJoinOnly
  rw [check_then_ok_iff, check_then_ok_iff, hjoins, hstars, checkAll_ok_iff]
  simp only [mem_columns_namingQuery hplain, forall_eq, checkAll, and_true]
  unfold checkJoinOnlyColumn
  simp only [hname, restrictedTablesOf_namingQuery hplain htable, hempty, hstar, false_or]
  by_cases hnamed : E.schema.case.lower column ∈ R.names
  · cases hentry : (R.entry E.schema.case t column).isSome with
    | true => simp [hnamed, hentry, hoperand]
    | false => simp [hnamed, hentry]
  · simp [hnamed]

theorem mem_restrictColumn_names {column entry n : String} {columns : List (String × String)} :
    n ∈ (restrictColumn column entry columns).map (·.1) ↔ n ∈ columns.map (·.1) ∨ n = column := by
  unfold restrictColumn
  split
  · rename_i hmem
    exact (or_iff_left_of_imp fun hn => hn ▸ hmem).symm
  · rw [List.map_append, List.mem_append, List.map_singleton, List.mem_singleton]

theorem mem_restrictTable_names {table column entry n : String}
    {byTable : List (String × List (String × String))} :
    n ∈ (restrictTable table column entry byTable).flatMap (fun t => t.2.map (·.1)) ↔
      n ∈ byTable.flatMap (fun t => t.2.map (·.1)) ∨ n = column := by
  induction byTable with
  | nil => simp [restrictTable]
  | cons head rest ih =>
    obtain ⟨key, columns⟩ := head
    rw [restrictTable]
    split
    · rw [List.flatMap_cons, List.flatMap_cons, List.mem_append, List.mem_append, mem_restrictColumn_names,
        or_right_comm]
    · rw [List.flatMap_cons, List.flatMap_cons, List.mem_append, List.mem_append, ih, or_assoc]

theorem mem_names_foldl_restrict {s : ScopedColumn} {tables : List SchemaTable}
    {R : JoinOnlyRestrictions} {n : String} :
    n ∈ (tables.foldl (·.restrict E s) R).names ↔
      n ∈ R.names ∨ (tables ≠ [] ∧ E.schema.case.casefold s.column = n) := by
  induction tables generalizing R with
  | nil => simp
  | cons t rest ih =>
    have hone : n ∈ (R.restrict E s t).names ↔ n ∈ R.names ∨ n = E.schema.case.casefold s.column :=
      mem_restrictTable_names
    rw [List.foldl_cons, ih, hone, or_assoc, @eq_comm _ n]
    simp only [ne_eq, reduceCtorEq, not_false_eq_true, true_and]
    exact or_congr_right (or_iff_left_of_imp fun h => h.2)

/-- An entry that resolves is for some table. -/
theorem resolveEntry_ne_nil {s : ScopedColumn} {r : Option String × List SchemaTable}
    (h : resolveEntry E s = .ok r) : r.2 ≠ [] := by
  unfold resolveEntry at h
  rw [bind_ok_iff] at h
  obtain ⟨source, -, hrest⟩ := h
  rw [bind_ok_iff] at hrest
  obtain ⟨tables, htables, heq⟩ := hrest
  cases heq
  show tables ≠ []
  unfold entryTables at htables
  dsimp only at htables
  split at htables
  · split at htables
    · cases htables
    · cases htables
    · split at htables
      · cases htables
      · split at htables
        · cases htables
        · cases htables
          exact List.cons_ne_nil _ _
  · split at htables
    · cases htables
    · cases htables
      exact List.cons_ne_nil _ _

/-- **The restricted names** are those of the entries in force. -/
theorem lower_mem_names_resolveFrom {source : Option String} {joinOnly : List ScopedColumn}
    {R R' : JoinOnlyRestrictions} (h : resolveFrom E source R joinOnly = .ok R') {column : String} :
    E.schema.case.lower column ∈ R'.names ↔
      E.schema.case.lower column ∈ R.names ∨ ∃ s ∈ joinOnly, Mentions E source column s := by
  induction joinOnly generalizing R with
  | nil =>
    cases h
    simp
  | cons s rest ih =>
    rw [resolveFrom, bind_ok_iff] at h
    obtain ⟨⟨entrySource, tables⟩, hresolve, hrest⟩ := h
    have hmentions : Mentions E source column s ↔ otherSource E source entrySource = false ∧
        E.schema.case.casefold s.column = E.schema.case.lower column := by
      constructor
      · rintro ⟨r, hr, hsource, hcolumn⟩
        cases hresolve.symm.trans hr
        exact ⟨hsource, hcolumn⟩
      · rintro ⟨hsource, hcolumn⟩
        exact ⟨_, hresolve, hsource, hcolumn⟩
    rw [ih hrest, List.exists_mem_cons_iff, hmentions, ← or_assoc]
    refine or_congr_left ?_
    cases hother : otherSource E source entrySource with
    | true => simp
    | false => simp [mem_names_foldl_restrict, resolveEntry_ne_nil hresolve]

/-- **The guard on a query that names a column**, under a policy. -/
theorem validateTree_namingQuery_ok_iff {cfg : MemoryKey} {ref : Expr} {t : SchemaTable}
    (h : NamesColumn E dialect cfg ref t) {policy : ColumnPolicy} :
    validateTree E dialect (policy.guardPolicy E) (namingQuery ref cfg.column) = .ok () ↔
      E.schema.case.upper cfg.column ∉ policy.denied ∧
      ∃ R, resolveJoinOnly E policy.joinOnly (executingSource E (namingQuery ref cfg.column)) = .ok R ∧
        ¬ (E.schema.case.lower cfg.column ∈ R.names ∧ (R.entry E.schema.case t cfg.column).isSome = true) := by
  have hbase : validateTree E dialect {} (namingQuery ref cfg.column) = .ok () := h.accepted
  rw [validateTree_ok_iff] at hbase
  obtain ⟨hroot, hnodes, hsingle, -, -, -, hprojection, htable⟩ := hbase
  have hstars : checkDeniedStars E (namingQuery ref cfg.column) (policy.guardPolicy E).denied = .ok () := by
    unfold checkDeniedStars
    rw [findAll_namingQuery_eq_nil h.plain fun c hc => ?_]
    · split <;> rfl
    · rw [Cls.isStar_iff.mp hc]
      decide
  have hjoin : checkJoinOnly E (namingQuery ref cfg.column) (policy.guardPolicy E) = .ok () ↔
      ∃ R, resolveJoinOnly E policy.joinOnly (executingSource E (namingQuery ref cfg.column)) = .ok R ∧
        ¬ (E.schema.case.lower cfg.column ∈ R.names ∧
          (R.entry E.schema.case t cfg.column).isSome = true) := by
    unfold checkJoinOnly ColumnPolicy.guardPolicy
    by_cases hnone : policy.joinOnly = []
    · have hnames : ∀ h, (⟨[], h⟩ : JoinOnlyRestrictions).names = [] := fun _ => rfl
      simp only [hnone, if_true, resolveJoinOnly, resolveFrom, Except.ok.injEq, exists_eq_left', hnames,
        List.not_mem_nil, false_and, not_false_eq_true]
    · simp only [hnone, if_false]
      cases hresolve : resolveJoinOnly E policy.joinOnly (executingSource E (namingQuery ref cfg.column)) with
      | error message => simp
      | ok R =>
        simp only [Except.ok.injEq, exists_eq_left']
        split
        · rename_i hbyTable
          have hnames : R.names = [] := by rw [JoinOnlyRestrictions.names, hbyTable]; rfl
          simp [hnames]
        · exact enforceJoinOnly_namingQuery_ok_iff h.plain h.table h.column_ne_empty h.column_ne_star
  rw [validateTree_ok_iff, hjoin]
  simp only [mem_columns_namingQuery h.plain, forall_eq, hroot, hsingle, hstars, htable, true_and, and_true]
  have hcolumn : checkColumn E (namingQuery ref cfg.column) (policy.guardPolicy E).denied
      (columnOcc ref cfg.column).node = .ok () ↔ E.schema.case.upper cfg.column ∉ policy.denied :=
    checkColumn_namingQuery_ok_iff h.column_ne_empty h.column_ne_star
  rw [hcolumn]
  exact ⟨fun hall => ⟨hall.2.1, hall.2.2.1⟩, fun hall => ⟨hnodes, hall.1, hall.2, hprojection⟩⟩

/-- **The guard refuses a query that names a column** exactly when the entries name the column to it. -/
theorem validate_namingQuery_ok_iff {cfg : MemoryKey} {ref : Expr} {t : SchemaTable}
    (h : NamesColumn E dialect cfg ref t) {entries : List String} :
    validateSqlWith E dialect entries [some (namingQuery ref cfg.column)] = .ok () ↔
      ¬ NamedToGuard E entries (executingSource E (namingQuery ref cfg.column)) t cfg.column := by
  generalize hsource : executingSource E (namingQuery ref cfg.column) = source
  by_cases hmalformed : ∃ e ∈ entries, Malformed E.schema.case E.repr e
  · refine iff_of_false (fun hok => ?_) (not_not.mpr (Or.inl hmalformed))
    have hno : ∀ policy, parseColumnPolicy E.schema.case E.repr entries ≠ .ok policy := fun policy hp => by
      obtain ⟨e, he, hbad⟩ := hmalformed
      exact exists_parseFrom_ok.mp ⟨policy, hp⟩ e he hbad
    unfold validateSqlWith at hok
    split at hok
    · exact hno _ ‹_›
    · -- the policy is read after the table checks, and cannot be
      simp only [List.filterMap_cons, id_eq, List.filterMap_nil, check_then_ok_iff, reduceCtorEq,
        and_false] at hok
  · have hread : ∀ e ∈ entries, ¬ Malformed E.schema.case E.repr e := fun e he hbad =>
      hmalformed ⟨e, he, hbad⟩
    obtain ⟨policy, hparse⟩ := exists_parseFrom_ok.mpr hread
    have hparse' : parseColumnPolicy E.schema.case E.repr entries = .ok policy := hparse
    have hguard : validateSqlWith E dialect entries [some (namingQuery ref cfg.column)] = .ok () ↔
        validateTree E dialect (policy.guardPolicy E) (namingQuery ref cfg.column) = .ok () := by
      rw [validateSqlWith, hparse']
      rfl
    have hdenied : E.schema.case.upper cfg.column ∈ policy.denied ↔
        NamedInUpperCase E.schema.case entries cfg.column := by
      rw [(parseFrom_ok hparse).1]
      simp only [mem_names_iff, List.not_mem_nil, false_or]
      rfl
    have hfirst : ∀ s, s ∈ policy.joinOnly ↔ FirstEntry E entries s := fun s => mem_joinOnly_iff hparse'
    rw [hguard, validateTree_namingQuery_ok_iff h, hdenied, hsource]
    unfold NamedToGuard
    rw [or_iff_right hmalformed, not_or, not_or]
    refine and_congr_right fun _ => ?_
    by_cases hresolves : ∀ s ∈ policy.joinOnly, ∃ r, resolveEntry E s = .ok r
    · have hok : ∃ R, resolveJoinOnly E policy.joinOnly source = .ok R := exists_resolveFrom_ok.mpr hresolves
      obtain ⟨R, hR⟩ := hok
      have hbroken : ¬ ∃ s, FirstEntry E entries s ∧ ∀ r, resolveEntry E s ≠ .ok r := by
        rintro ⟨s, hs, hno⟩
        obtain ⟨r, hr⟩ := hresolves s ((hfirst s).mpr hs)
        exact hno r hr
      have hnames : E.schema.case.lower cfg.column ∈ R.names ↔
          ∃ s, FirstEntry E entries s ∧ Mentions E source cfg.column s := by
        rw [lower_mem_names_resolveFrom hR]
        simp only [hfirst]
        exact or_iff_right List.not_mem_nil
      have hentry : (R.entry E.schema.case t cfg.column).isSome = true ↔
          ∃ s, FirstEntry E entries s ∧ covers E source t cfg.column s = true := by
        rw [entry_resolveFrom hR]
        show (Option.map _ (List.find? _ _)).isSome = true ↔ _
        rw [Option.isSome_map, List.find?_isSome]
        simp only [hfirst]
      rw [hR, and_iff_right hbroken, ← hnames, ← hentry]
      simp only [Except.ok.injEq, exists_eq_left']
    · refine iff_of_false ?_ ?_
      · rintro ⟨R, hR, -⟩
        exact hresolves (exists_resolveFrom_ok.mp ⟨R, hR⟩)
      · rintro ⟨hnone, -⟩
        refine hresolves fun s hs => ?_
        by_contra hno
        exact hnone ⟨s, (hfirst s).mp hs, fun r hr => hno ⟨r, hr⟩⟩

/-- **The memory obeys the column policy** exactly when, of every declared key, the entries have the
column as the configuration writes it whenever they name it to the guard, and only then. -/
theorem obeysPolicy_iff {keys : OrderedDict String MemoryKey} {entries : List String} :
    ObeysPolicy E dialect keys entries ↔
      ∀ key cfg, keys.lookup key = some cfg → ∀ ref t, NamesColumn E dialect cfg ref t →
        (cfg.column ∈ entries ↔
          NamedToGuard E entries (executingSource E (namingQuery ref cfg.column)) t cfg.column) := by
  constructor
  · intro hobeys key cfg hcfg ref t hnames
    -- one stored value is listed as applicable exactly when its column is not an entry
    have hrow := hobeys.applicable (AList.singleton key ⟨key, cfg.fieldName, "", ""⟩)
      ⟨key, cfg.fieldName, "", "", (keys.lookup key).any fun cfg => decide (cfg.column ∉ entries)⟩
      (List.mem_singleton.mpr rfl) cfg hcfg ref t hnames
    rw [validate_namingQuery_ok_iff hnames, hcfg] at hrow
    simpa [not_iff_not] using hrow
  · intro hspelled
    refine ⟨fun assumptions memory key hused => ?_, fun memory row hrow cfg hcfg ref t hnames => ?_⟩
    · obtain ⟨cfg, hcfg, hnot⟩ := notMem_of_used keys hused
      refine ⟨cfg, hcfg, fun ref t hnames => ?_⟩
      rw [validate_namingQuery_ok_iff hnames]
      exact fun hnamed => hnot ((hspelled key cfg hcfg ref t hnames).mpr hnamed)
    · obtain ⟨stored, -, rfl⟩ := List.mem_map.mp hrow
      dsimp only at hcfg ⊢
      rw [validate_namingQuery_ok_iff hnames, ← hspelled stored.1 cfg hcfg ref t hnames, hcfg]
      simp

end Guard

/-! ## An entry in lower case -/

/-- One declared preference, on the customers' names. -/
def customerMemory : OrderedDict String MemoryKey :=
  AList.singleton "scope" ⟨"sales.Customer", "customer", "Name", [], 120⟩

/-- The stored value of that preference. -/
def pinnedCustomer : OrderedDict String MemoryEntry :=
  AList.singleton "scope" ⟨"scope", "customer", "Acme", "2026-01-01T00:00:00"⟩

theorem customer_plainReference : PlainReference (Expr.tableRef "sales" "Customer" "") := by
  refine ⟨rfl, fun o ho => ?_⟩
  have hwalk : ∀ o ∈ walk (Expr.tableRef "sales" "Customer" ""),
      o.node = Expr.tableRef "sales" "Customer" "" ∨ o.node.cls.isNamePart = true := by
    show ∀ o ∈ [_, _, _], _
    simp only [List.forall_mem_cons]
    exact ⟨Or.inl rfl, Or.inr rfl, Or.inr rfl, fun o ho => absurd ho List.not_mem_nil⟩
  exact hwalk o (mem_walk_iff.mpr ho)

/-- **An entry in another case**: the guard refuses the column, and the memory goes on using it. -/
theorem lowerCaseEntry_not_obeysPolicy :
    (applyMemoryToAssumptions customerMemory [⟨"customer", "all", .default, true⟩] pinnedCustomer
      (some ["name"])).assumptions = [⟨"customer", "Acme", .memory, true⟩] ∧
    (∃ e, validateSqlWith salesEnv .tsql ["name"]
      [some (namingQuery (Expr.tableRef "sales" "Customer" "") "Name")] = .error e) ∧
    ¬ ObeysPolicy salesEnv .tsql customerMemory ["name"] := by
  have hrefused : ∃ e, validateSqlWith salesEnv .tsql ["name"]
      [some (namingQuery (Expr.tableRef "sales" "Customer" "") "Name")] = .error e := ⟨_, by rfl⟩
  refine ⟨by rfl, hrefused, fun hobeys => ?_⟩
  have hnames : NamesColumn salesEnv .tsql ⟨"sales.Customer", "customer", "Name", [], 120⟩
      (Expr.tableRef "sales" "Customer" "")
      ⟨"sales.Customer", "Customer", ["sales"], ["ID", "Name"]⟩ :=
    ⟨customer_plainReference, by rfl, rfl, by decide, by decide, by rfl⟩
  have hused : "scope" ∈ (applyMemoryToAssumptions customerMemory [⟨"customer", "all", .default, true⟩]
      pinnedCustomer (some ["name"])).used := by decide
  obtain ⟨cfg, hcfg, hallows⟩ := hobeys.used _ _ _ hused
  cases hcfg
  obtain ⟨e, he⟩ := hrefused
  rw [hallows _ _ hnames] at he
  cases he

end LocalSqlAgent
