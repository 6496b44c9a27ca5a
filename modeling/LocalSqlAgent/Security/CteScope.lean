import LocalSqlAgent.Security.ValidateSql
import LocalSqlAgent.Sql.Scope

/-! # The CTE exemption

The allowlist check skips every table reference whose name some CTE of the statement has: one
tree-wide set of names, where SQL decides by scope and by qualifier (as `table_hints` does). -/

namespace LocalSqlAgent

variable {E : GuardEnv} {dialect : Dialect} {policy : GuardPolicy} {tree : Expr}

/-- The qualifier a table node is written with. -/
def writtenQualifier (S : Schema) (o : ExprOcc) : List String :=
  (tableRefNameAndQualifier S.case o.node).2

/-- Only T-SQL lets a CTE refer to itself without `RECURSIVE`. -/
def Dialect.implicitRecursion (d : Dialect) : Bool := d = .tsql

/-- A table node is an unqualified reference in the scope of a CTE of its name. -/
def NamesCte (S : Schema) (dialect : Dialect) (o : ExprOcc) : Prop :=
  writtenQualifier S o = [] ∧
    S.case.lower o.node.name ∈ aliasesOf S.case (visibleCtes dialect.implicitRecursion o)

/-- A table node resolves, with its qualifier, to exactly one allowlisted table. -/
def ResolvesAt (S : Schema) (o : ExprOcc) : Prop := Resolves S o.node.name (writtenQualifier S o)

/-- **A table reference is accounted for**: a CTE in scope, or one allowlisted table. -/
def AccountedFor (S : Schema) (dialect : Dialect) (o : ExprOcc) : Prop :=
  NamesCte S dialect o ∨ ResolvesAt S o

/-- **A table reference borrows a CTE's name**: some CTE of the statement has it, but the reference
is qualified or lies outside that CTE's scope. -/
def BorrowsCteName (S : Schema) (dialect : Dialect) (tree : Expr) (o : ExprOcc) : Prop :=
  S.case.lower o.node.name ∈ cteNames S.case tree ∧ ¬ NamesCte S dialect o

/-- A CTE in scope is among the tree-wide names. -/
theorem NamesCte.mem_cteNames {S : Schema} {o : ExprOcc} (h : NamesCte S dialect o)
    (ho : InTree tree o) : S.case.lower o.node.name ∈ cteNames S.case tree := by
  obtain ⟨-, hmem⟩ := h
  obtain ⟨e, he, hne, heq⟩ := mem_aliasesOf.mp hmem
  obtain ⟨o', ho', rfl, hcls⟩ := ho.of_mem_visibleCtes he
  exact LocalSqlAgent.mem_cteNames.mpr ⟨o', ho', hcls, hne, heq⟩

/-- A reference that is accounted for has a name. -/
theorem AccountedFor.name_ne_empty {S : Schema} {o : ExprOcc} (h : AccountedFor S dialect o) :
    o.node.name ≠ "" := by
  intro hname
  rcases h with ⟨-, hmem⟩ | hres
  · rw [hname] at hmem
    exact lower_empty_not_mem_aliasesOf hmem
  · rw [ResolvesAt, hname] at hres
    exact not_resolves_empty hres

/-- What the main walk guarantees of a table reference that is named and no CTE's. -/
theorem resolvesAt_of_accepted (h : validateTree E dialect policy tree = .ok ()) {o : ExprOcc}
    (ho : InTree tree o) (hcls : o.node.cls = .table) (hname : o.node.name ≠ "")
    (hcte : E.schema.case.lower o.node.name ∉ cteNames E.schema.case tree) :
    ResolvesAt E.schema o := by
  obtain ⟨-, hnodes, -⟩ := validateTree_ok_iff.mp h
  have htable := checkTable_of_checkNode (hnodes o ho) hcls
  exact resolves_of_resolved (checkAllowlist_ok_iff.mp (checkAllowlist_of_checkTable htable hname hcte))

/-- **An accepted statement's table references** are all accounted for exactly when each is named
and none that borrows a CTE's name fails to resolve. -/
theorem accountedFor_iff_of_accepted (h : validateTree E dialect policy tree = .ok ()) :
    (∀ o, InTree tree o → o.node.cls = .table → AccountedFor E.schema dialect o) ↔
      ∀ o, InTree tree o → o.node.cls = .table → o.node.name ≠ "" ∧
        (BorrowsCteName E.schema dialect tree o → ResolvesAt E.schema o) := by
  constructor
  · intro hall o ho hcls
    have hacc := hall o ho hcls
    exact ⟨hacc.name_ne_empty, fun hborrow => hacc.resolve_left hborrow.2⟩
  · intro hcond o ho hcls
    obtain ⟨hname, hborrow⟩ := hcond o ho hcls
    by_cases hnames : NamesCte E.schema dialect o
    · exact Or.inl hnames
    · by_cases hcte : E.schema.case.lower o.node.name ∈ cteNames E.schema.case tree
      · exact Or.inr (hborrow ⟨hcte, hnames⟩)
      · exact Or.inr (resolvesAt_of_accepted h ho hcls hname hcte)

open Expr in
/-- `WITH Secrets AS (SELECT Name FROM sales.Customer) SELECT Name FROM hr.Secrets`. -/
def borrowedName : Expr :=
  selectFrom [("Secrets", selectFrom [] [columnRef "" "Name"] (tableRef "sales" "Customer" ""))]
    [columnRef "" "Name"] (tableRef "hr" "Secrets" "")

/-- The CTE exemption at work where it should not be: `hr.Secrets` is read and accepted, though it
is neither the CTE nor an allowlisted table. -/
theorem borrowedName_accepted_unaccounted :
    validateTree salesEnv .tsql {} borrowedName = .ok () ∧
      ∃ o, InTree borrowedName o ∧ o.node.cls = .table ∧ ¬ AccountedFor salesSchema .tsql o := by
  have hne : findAll Cls.isTable borrowedName ≠ [] := List.ne_nil_of_length_pos (by decide)
  obtain ⟨hin, hcls⟩ := mem_findAll.mp (List.head_mem hne)
  refine ⟨rfl, _, hin, Cls.isTable_iff.mp hcls, ?_⟩
  rintro (⟨hqualifier, -⟩ | ⟨t, ⟨ht, hbare, -⟩, -⟩)
  · cases hqualifier
  · have hno : ∀ t ∈ salesSchema.tables,
        salesSchema.case.lower t.bare ≠ salesSchema.case.lower "Secrets" := by decide
    exact hno t ht hbare

open Expr in
/-- `WITH c AS (SELECT Name FROM sales.Customer) SELECT Name FROM c` borrows nothing. -/
def scopedName : Expr :=
  selectFrom [("c", selectFrom [] [columnRef "" "Name"] (tableRef "sales" "Customer" ""))]
    [columnRef "" "Name"] (tableRef "" "c" "")

theorem scopedName_accountedFor_iff :
    validateTree salesEnv .tsql {} scopedName = .ok () ∧
      ((∀ o, InTree scopedName o → o.node.cls = .table → AccountedFor salesSchema .tsql o) ↔
        ∀ o, InTree scopedName o → o.node.cls = .table → o.node.name ≠ "" ∧
          (BorrowsCteName salesSchema .tsql scopedName o → ResolvesAt salesSchema o)) :=
  ⟨rfl, @accountedFor_iff_of_accepted salesEnv _ {} _ rfl⟩

end LocalSqlAgent
