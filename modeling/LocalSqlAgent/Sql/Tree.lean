import LocalSqlAgent.Lib.RoseTree

/-! # Statement trees

The tree `sqlglot.parse` hands to the guard: every node has a class (`Cls`), the comments attached
to it, and child nodes under argument keys (`Arg`). A child list that Python keeps under one key
(`joins`, `expressions`) is the sequence of children under that key. The text properties the guard
reads off a node (`.name`, `.alias`, `.text(key)`, the parts of a table reference) follow. -/

namespace LocalSqlAgent

/-- The classes of `sqlglot.expressions` that the modelled code tells apart. A class whose `this`
argument is a string carries that string. -/
inductive Cls where
  | select
  | union (distinct : Bool)
  | intersect
  | except
  | subquery
  | table
  | cte
  | withClause (recursive : Bool)
  | tableAlias
  | identifier (this : String) (quoted : Bool)
  | column
  | star
  | dot
  | alias
  | fromClause
  | join (method side kind : String)
  | whereClause
  | group
  | having
  | order
  | ordered (desc : Bool)
  | limit
  | fetch
  | offset
  | distinct
  | lateral
  | pivot (unpivot : Bool)
  | literal (this : String) (isString : Bool)
  | national
  | var (this : String)
  | null
  | eq
  | and
  | or
  | not
  | paren
  | add
  | count
  | anonymous (this : String)
  | func (name : String)
  | parameter
  | currentUser
  | sessionUser
  | currentSchema
  | objectId
  | currentTimestamp
  | insert
  | update
  | delete
  | drop
  | alter
  | create
  | merge
  | truncateTable
  | revoke
  | execute
  | into
  | command (this : String)
  | other (name : String)
  deriving DecidableEq, Repr

/-- The argument keys the modelled code names. -/
inductive Arg where
  | this
  | expression
  | expressions
  | alias
  | columns
  | db
  | catalog
  | table
  | from_
  | joins
  | laterals
  | pivots
  | with_
  | on
  | using_
  | where_
  | group
  | having
  | order
  | limit
  | offset
  | distinct
  | into
  | other (name : String)
  deriving DecidableEq, Repr

/-- What a node carries besides its children. -/
structure NodeLabel where
  /-- The node's class. -/
  cls : Cls
  /-- `node.comments`. -/
  comments : List String := []
  deriving DecidableEq, Repr

/-- A `sqlglot.Expression`. -/
abbrev Expr := RoseTree NodeLabel Arg

/-- An expression together with its `parent` chain. -/
abbrev ExprOcc := Occ NodeLabel Arg

namespace RoseTree

/-- A node without comments. -/
def ofCls (cls : Cls) (args : List (Arg × Expr) := []) : Expr := .node { cls } args

/-- The node's class. -/
def cls (e : Expr) : Cls := e.label.cls

@[simp] theorem cls_node (l : NodeLabel) (args : List (Arg × Expr)) :
    cls (.node l args) = l.cls := rfl

/-- `e.args.get(key)`: the first child under a key. -/
def arg (e : Expr) (k : Arg) : Option Expr := (e.slot k).head?

theorem mem_children_of_arg {e c : Expr} {k : Arg} (h : e.arg k = some c) :
    (k, c) ∈ e.children :=
  RoseTree.mem_slot.mp (List.mem_of_head? h)

/-- `isinstance(e, exp.Func)`. -/
def isFunc (e : Expr) : Bool :=
  match e.cls with
  | .anonymous _ | .func _ | .count | .currentUser | .sessionUser | .currentSchema | .objectId
  | .currentTimestamp => true
  | _ => false

/-- What `Expression.text` reads off an argument that is a node: the text of an identifier,
literal, variable, star or null, and nothing for any other node. -/
def argText (e : Expr) : String :=
  match e.cls with
  | .identifier s _ | .literal s _ | .var s => s
  | .star => "*"
  | .null => "NULL"
  | _ => ""

/-- `Expression.text(key)`. -/
def text (e : Expr) (k : Arg) : String := ((e.arg k).map argText).getD ""

mutual

/-- `.name`: by default the text of `this`; a `Dot` is named by its right part and a `Table` by its
`this` unless that is a function call. -/
def name : Expr → String
  | .node l args =>
    match l.cls with
    | .identifier s _ | .literal s _ | .var s | .anonymous s | .command s => s
    | .star => "*"
    | .null => "NULL"
    | .dot => nameAt .expression false args
    | .table => nameAt .this true args
    | _ => text (.node l args) .this

/-- The `.name` of the first child under a key, `""` when there is none or when it is a function
call and those are to be skipped. -/
def nameAt (k : Arg) (skipFunc : Bool) : List (Arg × Expr) → String
  | [] => ""
  | (k', c) :: rest =>
    if k' = k then
      if skipFunc && isFunc c then "" else name c
    else nameAt k skipFunc rest

end

/-- `.alias`: the name of a `TableAlias`, else the text of the `alias` argument. -/
def aliasName (e : Expr) : String :=
  match e.arg .alias with
  | some a => if a.cls = .tableAlias then text a .this else argText a
  | none => ""

/-- `.alias_or_name`. -/
def aliasOrName (e : Expr) : String := if e.aliasName = "" then e.name else e.aliasName

/-- `Column.table`: the qualifier a column is written with, `""` for none. -/
def qualifier (e : Expr) : String := e.text .table

/-- `Table.db`. -/
def db (e : Expr) : String := e.text .db

/-- `Table.catalog`. -/
def catalog (e : Expr) : String := e.text .catalog

mutual

/-- The dotted parts of an identifier chain, left to right (`registry.table_ref_parts._flatten`). -/
def flattenDots : Expr → List String
  | .node l args =>
    match l.cls with
    | .dot => flattenDotsAt .this args ++ flattenDotsAt .expression args
    | .identifier s _ => [s]
    | _ => [name (.node l args)].filter (· ≠ "")

/-- The dotted parts of the first child under a key. -/
def flattenDotsAt (k : Arg) : List (Arg × Expr) → List String
  | [] => []
  | (k', c) :: rest => if k' = k then flattenDots c else flattenDotsAt k rest

end

/-- `registry.table_ref_parts`: a table reference's qualifier parts and, last, its bare name. -/
def tableRefParts (e : Expr) : List String :=
  [e.catalog, e.db].filter (· ≠ "") ++
    match e.arg .this with
    | some this => if this.cls = .dot then flattenDots this else [e.name].filter (· ≠ "")
    | none => [e.name].filter (· ≠ "")

theorem nameAt_cons (k k' : Arg) (skipFunc : Bool) (c : Expr) (rest : List (Arg × Expr)) :
    nameAt k skipFunc ((k', c) :: rest) =
      if k' = k then (if skipFunc && isFunc c then "" else name c) else nameAt k skipFunc rest := rfl

/-- Under a key, `.name` reads the first child there. -/
theorem nameAt_eq (k : Arg) (skipFunc : Bool) (args : List (Arg × Expr)) :
    nameAt k skipFunc args = ((((args.filter (·.1 = k)).map (·.2)).head?.map fun c =>
      if skipFunc && isFunc c then "" else name c)).getD "" := by
  induction args with
  | nil => rfl
  | cons head rest ih =>
    obtain ⟨k', c⟩ := head
    by_cases hk : k' = k
    · simp [nameAt_cons, hk]
    · simp [nameAt_cons, hk, ih]

theorem flattenDotsAt_cons (k k' : Arg) (c : Expr) (rest : List (Arg × Expr)) :
    flattenDotsAt k ((k', c) :: rest) = if k' = k then flattenDots c else flattenDotsAt k rest := rfl

theorem flattenDotsAt_eq (k : Arg) (args : List (Arg × Expr)) :
    flattenDotsAt k args = (((args.filter (·.1 = k)).map (·.2)).head?.map flattenDots).getD [] := by
  induction args with
  | nil => rfl
  | cons head rest ih =>
    obtain ⟨k', c⟩ := head
    by_cases hk : k' = k
    · simp [flattenDotsAt_cons, hk]
    · simp [flattenDotsAt_cons, hk, ih]

theorem name_dot {e : Expr} (h : e.cls = .dot) :
    e.name = ((e.arg .expression).map name).getD "" := by
  obtain ⟨l, args⟩ := e
  rw [cls_node] at h
  simp [name, h, nameAt_eq, arg, slot]

/-- A table is named by its `this`, unless that is a function call. -/
theorem name_table {e : Expr} (h : e.cls = .table) :
    e.name = ((e.arg .this).map fun c => if isFunc c then "" else name c).getD "" := by
  obtain ⟨l, args⟩ := e
  rw [cls_node] at h
  simp [name, h, nameAt_eq, arg, slot]

/-- The last of a chain's dotted parts is the chain's name. -/
theorem flattenDots_getLast? (e : Expr) (h : e.name ≠ "") :
    (flattenDots e).getLast? = some e.name := by
  by_cases hdot : e.cls = .dot
  · cases harg : e.arg .expression with
    | none => simp [name_dot hdot, harg] at h
    | some c =>
      have hlt := depth_lt_of_mem (mem_children_of_arg harg)
      have hname : e.name = c.name := by simp [name_dot hdot, harg]
      have hlast := flattenDots_getLast? c (hname ▸ h)
      obtain ⟨l, args⟩ := e
      rw [cls_node] at hdot
      have hflat : flattenDots (.node l args) =
          flattenDotsAt .this args ++ flattenDots c := by
        rw [arg, slot, children_node] at harg
        simp [flattenDots, hdot, flattenDotsAt_eq .expression, harg]
      rw [hflat, List.getLast?_append, hlast, hname]
      rfl
  · obtain ⟨l, args⟩ := e
    rw [cls_node] at hdot
    unfold flattenDots
    split
    · contradiction
    · rename_i s q hident
      simp [name, hident]
    · simp [h]
termination_by e.depth

/-- **The two ways the guard reads a table's name agree**: the last dotted part and `.name`. -/
theorem tableRefParts_getLast? {e : Expr} (hcls : e.cls = .table) (h : e.name ≠ "") :
    e.tableRefParts.getLast? = some e.name := by
  have hname := name_table hcls
  rw [tableRefParts, List.getLast?_append]
  cases harg : e.arg .this with
  | none => simp [harg] at hname; contradiction
  | some c =>
    simp only [harg, Option.map_some, Option.getD_some] at hname
    have hfunc : isFunc c = false := by
      by_contra hf
      simp only [Bool.not_eq_false] at hf
      exact h (by simp [hname, hf])
    simp only [hfunc, Bool.false_eq_true, if_false] at hname
    by_cases hdot : c.cls = .dot
    · simp [hdot, hname, flattenDots_getLast? c (hname ▸ h)]
    · simp [hdot, h]

end RoseTree

/-! ## Building trees -/

namespace Expr

/-- An identifier. -/
def ident (s : String) : Expr := .ofCls (.identifier s false)

/-- A table reference with its qualifier (`""` for none), alias (`""` for none) and joins. -/
def tableRef (db name label : String) (joins : List Expr := []) : Expr :=
  .ofCls .table ([(.this, ident name)] ++
    (if db = "" then [] else [(.db, ident db)]) ++
    (if label = "" then [] else [(.alias, .ofCls .tableAlias [(.this, ident label)])]) ++
    joins.map (Arg.joins, ·))

/-- A column reference with its qualifier (`""` for none). -/
def columnRef (qualifier name : String) : Expr :=
  .ofCls .column ([(.this, ident name)] ++
    (if qualifier = "" then [] else [(.table, ident qualifier)]))

/-- `JOIN right ON condition`. -/
def joinOn (right condition : Expr) : Expr :=
  .ofCls (.join "" "" "") [(.this, right), (.on, condition)]

/-- `left = right`. -/
def equals (left right : Expr) : Expr := .ofCls .eq [(.this, left), (.expression, right)]

/-- `SELECT projections FROM source joins`, under `WITH ctes` when there are any. -/
def selectFrom (ctes : List (String × Expr)) (projections : List Expr) (source : Expr)
    (joins : List Expr := []) : Expr :=
  .ofCls .select
    ((if ctes = [] then [] else
      [(.with_, .ofCls (.withClause false) (ctes.map fun (name, body) =>
        (.expressions, .ofCls .cte
          [(.this, body), (.alias, .ofCls .tableAlias [(.this, ident name)])])))]) ++
    projections.map (Arg.expressions, ·) ++
    [(.from_, .ofCls .fromClause [(.this, source)])] ++
    joins.map (Arg.joins, ·))

end Expr

/-! ## Nodes of a class -/

/-- `tree.find_all(cls)`: the occurrences of the nodes whose class satisfies `p`, breadth first. -/
def findAll (p : Cls → Bool) (tree : Expr) : List ExprOcc :=
  (walk tree).filter fun o => p o.node.cls

theorem mem_findAll {p : Cls → Bool} {tree : Expr} {o : ExprOcc} :
    o ∈ findAll p tree ↔ InTree tree o ∧ p o.node.cls = true := by
  simp [findAll, mem_walk_iff]

/-- The class test `isinstance(node, exp.Table)`. -/
def Cls.isTable : Cls → Bool
  | .table => true
  | _ => false

/-- The class test `isinstance(node, exp.Select)`. -/
def Cls.isSelect : Cls → Bool
  | .select => true
  | _ => false

/-- The class test `isinstance(node, exp.Column)`. -/
def Cls.isColumn : Cls → Bool
  | .column => true
  | _ => false

/-- The class test `isinstance(node, exp.Star)`. -/
def Cls.isStar : Cls → Bool
  | .star => true
  | _ => false

/-- The class test `isinstance(node, exp.CTE)`. -/
def Cls.isCte : Cls → Bool
  | .cte => true
  | _ => false

/-- The class test `isinstance(node, exp.Join)`. -/
def Cls.isJoin : Cls → Bool
  | .join .. => true
  | _ => false

@[simp] theorem Cls.isTable_iff {c : Cls} : c.isTable = true ↔ c = .table := by
  cases c <;> simp [isTable]

@[simp] theorem Cls.isSelect_iff {c : Cls} : c.isSelect = true ↔ c = .select := by
  cases c <;> simp [isSelect]

@[simp] theorem Cls.isColumn_iff {c : Cls} : c.isColumn = true ↔ c = .column := by
  cases c <;> simp [isColumn]

@[simp] theorem Cls.isStar_iff {c : Cls} : c.isStar = true ↔ c = .star := by
  cases c <;> simp [isStar]

@[simp] theorem Cls.isCte_iff {c : Cls} : c.isCte = true ↔ c = .cte := by
  cases c <;> simp [isCte]

/-- The selects around a node, innermost first: `_enclosing_select` applied again and again. -/
def enclosingSelects (o : ExprOcc) : List ExprOcc :=
  o.ancestors.filter fun a => a.node.cls.isSelect

/-- `_enclosing_select`: the nearest select strictly above a node. -/
def enclosingSelect (o : ExprOcc) : Option ExprOcc := (enclosingSelects o).head?

theorem InTree.of_mem_enclosingSelects {tree : Expr} {o s : ExprOcc} (h : InTree tree o)
    (hs : s ∈ enclosingSelects o) : InTree tree s :=
  h.ancestor (List.mem_filter.mp hs).1

end LocalSqlAgent
