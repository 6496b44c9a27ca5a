import LocalSqlAgent.Eval.ReferenceOrdering
import LocalSqlAgent.Security.JoinOnly
import LocalSqlAgent.Sql.QueryRows

/-! # Where a column reference reads from

`column_origins` of `security.sql_guard`: the stored columns a reference can be a plain copy of. A name is
looked up in the `FROM`/`JOIN` sources of the selects around it; the body of a derived table or of a CTE is
entered through its select list, seven levels deep at most.

* **`scopeOrigins`**, **`bodyOrigins`**: a name seen from a select, and an output name of a query. `none` is
  the source's "cannot tell".
* **`columnOrigins`**: the whole search.
* **`scopeOrigins_stored`**: what is found are columns of tables of the schema.
* **`origins_succ`**: the bound on the depth only makes answers unknown, it changes none. -/

namespace LocalSqlAgent

/-! ## Parts of a query -/

mutual

/-- `while isinstance(node, …): node = node.this`: the node inside the wrappers of some classes. -/
def unwrap (wrapper : Cls → Bool) : Expr → Option Expr
  | .node l args => if wrapper l.cls then unwrapAt wrapper args else some (.node l args)

/-- The unwrapped first child under `this`. -/
def unwrapAt (wrapper : Cls → Bool) : List (Arg × Expr) → Option Expr
  | [] => none
  | (k, c) :: rest => if k = .this then unwrap wrapper c else unwrapAt wrapper rest

end

/-- `exp.Subquery` and `exp.Paren`. -/
def Cls.isBodyWrapper : Cls → Bool
  | .subquery | .paren => true
  | _ => false

mutual

/-- `_setop_branches`; `none` for an operand that is missing. -/
def setopBranches : Expr → Option (List Expr)
  | .node l args =>
    if l.cls.isSetOperation then
      (setopBranchesAt .this args).bind fun left => (setopBranchesAt .expression args).map fun right => left ++ right
    else some [.node l args]

/-- The branches of the first child under a key. -/
def setopBranchesAt (k : Arg) : List (Arg × Expr) → Option (List Expr)
  | [] => none
  | (k', c) :: rest => if k' = k then setopBranches c else setopBranchesAt k rest

end

/-- `unalias()`. -/
def unalias (e : Expr) : Option Expr := if e.cls = .alias then e.arg .this else some e

/-- `(projection.alias_or_name or "").lower()`. -/
def outputName (C : CaseMaps) (e : Expr) : String := C.lower (if e.aliasName = "" then projectedName e else e.aliasName)

/-! ## The search -/

/-- A stored column: its table's key and its lower-cased name. -/
abbrev ColumnOrigin := String × String

/-- The answers of all, one after another; `none` when one of them is unknown. -/
def allOrigins {α : Type} (find : α → Option (List ColumnOrigin)) (l : List α) : Option (List ColumnOrigin) :=
  (l.mapM find).map List.flatten

section Search

variable (S : Schema) (ctes : List (String × Option Expr))

/-- `_source_origins`, over the search of a body. -/
def sourceOrigins (body : Expr → Option (List ColumnOrigin)) (name : String) (source : Expr) :
    Option (List ColumnOrigin) :=
  if source.cls = .table then
    let ref := tableRefNameAndQualifier S.case source
    match if ref.2 = [] then ctes.reverse.lookup (S.case.lower ref.1) else none with
    | some definition => definition.bind body
    | none => (resolveTableName S (ctes.map (·.1)) source).map fun t =>
        if name ∈ S.columnsByTable t then [(t.key, name)] else []
  else if source.cls = .subquery then (source.arg .this).bind body
  else none

/-- The loop of `_scope_origins`, over the search of a source. -/
def searchScopes (find : Expr → Option (List ColumnOrigin)) (qualifier : String) :
    List Expr → Option (List ColumnOrigin)
  | [] => some []
  | select :: outer =>
    match (directFromSources select).filter fun s => qualifier = "" || sourceLabel S.case s = qualifier with
    | [] => searchScopes find qualifier outer
    | chosen =>
      (allOrigins find chosen).bind fun origins =>
        if origins ≠ [] ∨ qualifier ≠ "" then some origins else searchScopes find qualifier outer

/-- The stored columns a projected expression is a plain copy of. -/
def copyOrigins (scope : List Expr → String → String → Option (List ColumnOrigin)) (select projection : Expr) :
    Option (List ColumnOrigin) :=
  (unalias projection).bind fun inner =>
    if inner.cls = .column ∧ inner.name ≠ "" then
      scope [select] (S.case.lower inner.qualifier) (S.case.lower inner.name)
    else none

/-- `_select_output_origins`. -/
def selectOutputOrigins (scope : List Expr → String → String → Option (List ColumnOrigin)) (name : String)
    (select : Expr) : Option (List ColumnOrigin) :=
  let projections := select.slot .expressions
  match projections.filter fun p => isStarItem p = false ∧ outputName S.case p = name with
  | [] => allOrigins (fun star => scope [select] (S.case.lower star.qualifier) name) (projections.filter isStarItem)
  | matching =>
    allOrigins (fun p => if (unalias p).any isStarItem then none else copyOrigins S scope select p) matching

/-- The columns at one position of the branches of a set operation. -/
def positionOrigins (scope : List Expr → String → String → Option (List ColumnOrigin)) (position : ℕ)
    (branch : Expr) : Option (List ColumnOrigin) :=
  (branch.slot .expressions)[position]?.bind fun projection =>
    if isStarItem projection then none else copyOrigins S scope branch projection

/-- `_body_origins` of a set operation's branches. -/
def setopOrigins (scope : List Expr → String → String → Option (List ColumnOrigin)) (name : String) :
    List Expr → Option (List ColumnOrigin)
  | [] => none
  | first :: others =>
    if others = [] ∨ ¬ (first :: others).all (·.cls.isSelect) then none
    else if (first.slot .expressions).any isStarItem then
      allOrigins (selectOutputOrigins S scope name) (first :: others)
    else
      let names := (first.slot .expressions).map (outputName S.case)
      if name ∈ names then allOrigins (positionOrigins S scope (names.idxOf name)) (first :: others) else some []

mutual

/-- **`_scope_origins`**: a name, under a qualifier or none, seen from some selects, innermost first. -/
def scopeOrigins : ℕ → List Expr → String → String → Option (List ColumnOrigin)
  | 0, _, _, _ => none
  | depth + 1, scopes, qualifier, name =>
    searchScopes S (sourceOrigins S ctes (fun body => bodyOrigins depth body name) name) qualifier scopes

/-- **`_body_origins`**: an output name of the body of a derived table or a CTE. -/
def bodyOrigins : ℕ → Expr → String → Option (List ColumnOrigin)
  | 0, _, _ => none
  | depth + 1, body, name =>
    (unwrap Cls.isBodyWrapper body).bind fun body =>
      if body.cls.isSelect then selectOutputOrigins S (fun s q n => scopeOrigins depth s q n) name body
      else (setopBranches body).bind (setopOrigins S (fun s q n => scopeOrigins depth s q n) name)

end

end Search

/-- `depth > 6` is too deep. -/
def originDepth : ℕ := 7

/-- `{cte.alias.lower(): cte.this …}`, a later definition of a name last. -/
def cteBodies (C : CaseMaps) (tree : Expr) : List (String × Option Expr) :=
  (((findAll Cls.isCte tree).map (·.node)).filter (·.aliasName ≠ "")).map fun cte =>
    (C.lower cte.aliasName, cte.arg .this)

/-- **`column_origins`** of a column below some selects of a statement, innermost first. -/
def columnOrigins (S : Schema) (tree : Expr) (scopes : List Expr) (column : Expr) : List ColumnOrigin :=
  let name := S.case.lower column.name
  if name = "" ∨ isStarItem column = true then []
  else ((scopeOrigins S (cteBodies S.case tree) originDepth scopes (S.case.lower column.qualifier) name).getD
    []).eraseDups

/-! ## What is found -/

theorem allOrigins_nil {α : Type} (find : α → Option (List ColumnOrigin)) : allOrigins find [] = some [] := rfl

theorem allOrigins_cons {α : Type} (find : α → Option (List ColumnOrigin)) (a : α) (l : List α) :
    allOrigins find (a :: l) = (find a).bind fun x => (allOrigins find l).map fun y => x ++ y := by
  unfold allOrigins
  rw [List.mapM_cons]
  cases find a with
  | none => rfl
  | some x => cases l.mapM find <;> rfl

/-- What all of a list find, one of it finds. -/
theorem exists_of_mem_allOrigins {α : Type} {find : α → Option (List ColumnOrigin)} {l : List α}
    {origins : List ColumnOrigin} (h : allOrigins find l = some origins) {o : ColumnOrigin} (ho : o ∈ origins) :
    ∃ a ∈ l, ∃ found, find a = some found ∧ o ∈ found := by
  induction l generalizing origins with
  | nil =>
    cases h
    cases ho
  | cons a l ih =>
    rw [allOrigins_cons] at h
    obtain ⟨x, hx, h⟩ := Option.bind_eq_some_iff.mp h
    obtain ⟨y, hy, rfl⟩ := Option.map_eq_some_iff.mp h
    rcases List.mem_append.mp ho with ho | ho
    · exact ⟨a, List.mem_cons_self, x, hx, ho⟩
    · obtain ⟨b, hb, hfound⟩ := ih hy ho
      exact ⟨b, List.mem_cons_of_mem _ hb, hfound⟩

/-- A search that knows more answers as the first where that one knows. -/
theorem allOrigins_mono {α : Type} {find find' : α → Option (List ColumnOrigin)}
    (hfind : ∀ a x, find a = some x → find' a = some x) {l : List α} {origins : List ColumnOrigin}
    (h : allOrigins find l = some origins) : allOrigins find' l = some origins := by
  induction l generalizing origins with
  | nil => exact h
  | cons a l ih =>
    rw [allOrigins_cons] at h ⊢
    obtain ⟨x, hx, h⟩ := Option.bind_eq_some_iff.mp h
    obtain ⟨y, hy, rfl⟩ := Option.map_eq_some_iff.mp h
    rw [hfind a x hx, Option.bind_some, ih hy, Option.map_some]

section Stored

variable {S : Schema} {ctes : List (String × Option Expr)} {name : String}

/-- A stored column of the schema. -/
def StoredColumn (S : Schema) (o : ColumnOrigin) : Prop := ∃ t ∈ S.tables, t.key = o.1 ∧ o.2 ∈ S.columnsByTable t

/-- A search finds stored columns only. -/
def FindsStored (S : Schema) (found : Option (List ColumnOrigin)) : Prop :=
  ∀ origins, found = some origins → ∀ o ∈ origins, StoredColumn S o

theorem FindsStored.all {α : Type} {find : α → Option (List ColumnOrigin)} (hfind : ∀ a, FindsStored S (find a))
    (l : List α) : FindsStored S (allOrigins find l) := by
  intro origins h o ho
  obtain ⟨a, -, found, hfound, ho⟩ := exists_of_mem_allOrigins h ho
  exact hfind a found hfound o ho

theorem FindsStored.source {body : Expr → Option (List ColumnOrigin)} (hbody : ∀ e, FindsStored S (body e))
    (source : Expr) : FindsStored S (sourceOrigins S ctes body name source) := by
  intro origins h
  unfold sourceOrigins at h
  split at h
  · dsimp only at h
    split at h
    · obtain ⟨e, -, h⟩ := Option.bind_eq_some_iff.mp h
      exact hbody e origins h
    · obtain ⟨t, ht, rfl⟩ := Option.map_eq_some_iff.mp h
      intro o ho
      split at ho
      · rename_i hcolumn
        obtain rfl := List.mem_singleton.mp ho
        exact ⟨t, mem_tables_of_resolveTableName ht, rfl, hcolumn⟩
      · cases ho
  · split at h
    · obtain ⟨e, -, h⟩ := Option.bind_eq_some_iff.mp h
      exact hbody e origins h
    · cases h

theorem FindsStored.scopes {find : Expr → Option (List ColumnOrigin)} (hfind : ∀ e, FindsStored S (find e))
    (qualifier : String) (scopes : List Expr) : FindsStored S (searchScopes S find qualifier scopes) := by
  induction scopes with
  | nil =>
    intro origins h o ho
    cases h
    cases ho
  | cons select outer ih =>
    intro origins h
    unfold searchScopes at h
    split at h
    · exact ih origins h
    · obtain ⟨found, hall, h⟩ := Option.bind_eq_some_iff.mp h
      split at h
      · cases h
        exact FindsStored.all hfind _ _ hall
      · exact ih origins h

section Output

variable {scope : List Expr → String → String → Option (List ColumnOrigin)}
  (hscope : ∀ s q n, FindsStored S (scope s q n))

include hscope

theorem FindsStored.copy (select projection : Expr) : FindsStored S (copyOrigins S scope select projection) := by
  intro origins h
  obtain ⟨inner, -, h⟩ := Option.bind_eq_some_iff.mp h
  split at h
  · exact hscope _ _ _ origins h
  · cases h

theorem FindsStored.output (select : Expr) : FindsStored S (selectOutputOrigins S scope name select) := by
  unfold selectOutputOrigins
  dsimp only
  split
  · exact FindsStored.all (fun _ => hscope _ _ _) _
  · refine FindsStored.all (fun p origins h => ?_) _
    split at h
    · cases h
    · exact FindsStored.copy hscope select p origins h

theorem FindsStored.position (position : ℕ) (branch : Expr) :
    FindsStored S (positionOrigins S scope position branch) := by
  intro origins h
  obtain ⟨projection, -, h⟩ := Option.bind_eq_some_iff.mp h
  split at h
  · cases h
  · exact FindsStored.copy hscope branch projection origins h

theorem FindsStored.setop (branches : List Expr) : FindsStored S (setopOrigins S scope name branches) := by
  cases branches with
  | nil =>
    intro origins h
    cases h
  | cons first others =>
    rw [setopOrigins]
    split
    · intro origins h
      cases h
    · split
      · exact FindsStored.all (FindsStored.output hscope) _
      · dsimp only
        split
        · exact FindsStored.all (FindsStored.position hscope _) _
        · intro origins h o ho
          cases h
          cases ho

end Output

/-- **What is found are stored columns**, from a select and in a body. -/
theorem scopeOrigins_stored (depth : ℕ) : (∀ scopes qualifier name,
      FindsStored S (scopeOrigins S ctes depth scopes qualifier name)) ∧
    ∀ body name, FindsStored S (bodyOrigins S ctes depth body name) := by
  induction depth with
  | zero =>
    constructor
    · intro scopes qualifier name origins h
      cases h
    · intro body name origins h
      cases h
  | succ depth ih =>
    refine ⟨fun scopes qualifier name => ?_, fun body name origins h => ?_⟩
    · exact FindsStored.scopes (FindsStored.source fun body => ih.2 body name) qualifier scopes
    · obtain ⟨inner, -, h⟩ := Option.bind_eq_some_iff.mp h
      split at h
      · exact FindsStored.output ih.1 inner origins h
      · obtain ⟨branches, -, h⟩ := Option.bind_eq_some_iff.mp h
        exact FindsStored.setop ih.1 branches origins h

theorem columnOrigins_stored {tree column : Expr} {scopes : List Expr} {o : ColumnOrigin}
    (ho : o ∈ columnOrigins S tree scopes column) : StoredColumn S o := by
  unfold columnOrigins at ho
  dsimp only at ho
  split at ho
  · cases ho
  · rw [List.mem_eraseDups] at ho
    cases hfound : scopeOrigins S (cteBodies S.case tree) originDepth scopes (S.case.lower column.qualifier)
        (S.case.lower column.name) with
    | none =>
      rw [hfound] at ho
      cases ho
    | some origins =>
      rw [hfound] at ho
      exact (scopeOrigins_stored originDepth).1 _ _ _ origins hfound o ho

end Stored

/-! ## The bound on the depth -/

section Depth

variable {S : Schema} {ctes : List (String × Option Expr)} {name : String}

theorem sourceOrigins_mono {body body' : Expr → Option (List ColumnOrigin)}
    (hbody : ∀ e x, body e = some x → body' e = some x) {source : Expr} {x : List ColumnOrigin}
    (h : sourceOrigins S ctes body name source = some x) : sourceOrigins S ctes body' name source = some x := by
  unfold sourceOrigins at h ⊢
  split at h
  · rename_i htable
    rw [if_pos htable]
    dsimp only at h ⊢
    split at h
    · obtain ⟨e, he, h⟩ := Option.bind_eq_some_iff.mp h
      exact Option.bind_eq_some_iff.mpr ⟨e, he, hbody e x h⟩
    · exact h
  · rename_i htable
    rw [if_neg htable]
    split at h
    · rename_i hsubquery
      rw [if_pos hsubquery]
      obtain ⟨e, he, h⟩ := Option.bind_eq_some_iff.mp h
      exact Option.bind_eq_some_iff.mpr ⟨e, he, hbody e x h⟩
    · cases h

theorem searchScopes_mono {find find' : Expr → Option (List ColumnOrigin)}
    (hfind : ∀ e x, find e = some x → find' e = some x) {qualifier : String} {scopes : List Expr}
    {x : List ColumnOrigin} (h : searchScopes S find qualifier scopes = some x) :
    searchScopes S find' qualifier scopes = some x := by
  induction scopes with
  | nil => exact h
  | cons select outer ih =>
    unfold searchScopes at h ⊢
    split at h
    · exact ih h
    · obtain ⟨found, hall, h⟩ := Option.bind_eq_some_iff.mp h
      rw [allOrigins_mono hfind hall, Option.bind_some]
      split at h
      · rename_i hdecided
        rw [if_pos hdecided]
        exact h
      · rename_i hundecided
        rw [if_neg hundecided]
        exact ih h

section Output

variable {scope scope' : List Expr → String → String → Option (List ColumnOrigin)}
  (hscope : ∀ s q n x, scope s q n = some x → scope' s q n = some x)

include hscope

theorem copyOrigins_mono {select projection : Expr} {x : List ColumnOrigin}
    (h : copyOrigins S scope select projection = some x) : copyOrigins S scope' select projection = some x := by
  obtain ⟨inner, hinner, h⟩ := Option.bind_eq_some_iff.mp h
  refine Option.bind_eq_some_iff.mpr ⟨inner, hinner, ?_⟩
  split at h
  · rename_i hcolumn
    rw [if_pos hcolumn]
    exact hscope _ _ _ x h
  · cases h

theorem selectOutputOrigins_mono {select : Expr} {x : List ColumnOrigin}
    (h : selectOutputOrigins S scope name select = some x) : selectOutputOrigins S scope' name select = some x := by
  unfold selectOutputOrigins at h ⊢
  dsimp only at h ⊢
  split at h
  · exact allOrigins_mono (fun star x => hscope _ _ _ x) h
  · refine allOrigins_mono (fun p x hp => ?_) h
    split at hp
    · cases hp
    · rename_i hstar
      rw [if_neg hstar]
      exact copyOrigins_mono hscope hp

theorem positionOrigins_mono {position : ℕ} {branch : Expr} {x : List ColumnOrigin}
    (h : positionOrigins S scope position branch = some x) : positionOrigins S scope' position branch = some x := by
  obtain ⟨projection, hprojection, h⟩ := Option.bind_eq_some_iff.mp h
  refine Option.bind_eq_some_iff.mpr ⟨projection, hprojection, ?_⟩
  split at h
  · cases h
  · rename_i hstar
    rw [if_neg hstar]
    exact copyOrigins_mono hscope h

theorem setopOrigins_mono {branches : List Expr} {x : List ColumnOrigin}
    (h : setopOrigins S scope name branches = some x) : setopOrigins S scope' name branches = some x := by
  cases branches with
  | nil => cases h
  | cons first others =>
    rw [setopOrigins] at h ⊢
    split at h
    · cases h
    · rename_i hselects
      rw [if_neg hselects]
      split at h
      · rename_i hstar
        rw [if_pos hstar]
        exact allOrigins_mono (fun select x => selectOutputOrigins_mono hscope) h
      · rename_i hstar
        rw [if_neg hstar]
        dsimp only at h ⊢
        split at h
        · rename_i hname
          rw [if_pos hname]
          exact allOrigins_mono (fun branch x => positionOrigins_mono hscope) h
        · rename_i hname
          rw [if_neg hname]
          exact h

end Output

/-- **A deeper search answers the same** wherever the bounded one answers. -/
theorem origins_succ (depth : ℕ) : (∀ scopes qualifier name x, scopeOrigins S ctes depth scopes qualifier name = some x →
      scopeOrigins S ctes (depth + 1) scopes qualifier name = some x) ∧
    ∀ body name x, bodyOrigins S ctes depth body name = some x → bodyOrigins S ctes (depth + 1) body name = some x := by
  induction depth with
  | zero =>
    constructor
    · intro scopes qualifier name x h
      cases h
    · intro body name x h
      cases h
  | succ depth ih =>
    constructor
    · intro scopes qualifier name x h
      exact searchScopes_mono (fun e x => sourceOrigins_mono fun body x => ih.2 body name x) h
    · intro body name x h
      obtain ⟨inner, hinner, h⟩ := Option.bind_eq_some_iff.mp h
      refine Option.bind_eq_some_iff.mpr ⟨inner, hinner, ?_⟩
      split at h
      · rename_i hselect
        rw [if_pos hselect]
        exact selectOutputOrigins_mono ih.1 h
      · rename_i hselect
        rw [if_neg hselect]
        obtain ⟨branches, hbranches, h⟩ := Option.bind_eq_some_iff.mp h
        exact Option.bind_eq_some_iff.mpr ⟨branches, hbranches, setopOrigins_mono ih.1 h⟩

end Depth

end LocalSqlAgent
