import LocalSqlAgent.Sql.Tree

/-! # The table allowlist

The part of `security.sql_guard` that decides which `schema.yaml` table a reference means:
`_match_table_ref`, the CTE names of a statement, `_resolve_table_name` and the alias map.
`Denotes` says declaratively when a reference means a table; `matchTableRef_resolved` connects the
two. -/

namespace LocalSqlAgent

/-- Python's case mappings of a string. They are given functions here, with the two laws the proofs
rest on. -/
structure CaseMaps where
  /-- `str.lower`. -/
  lower : String → String
  /-- `str.upper`. -/
  upper : String → String
  /-- `str.casefold`. -/
  casefold : String → String
  /-- Only the empty string is empty in lower case. -/
  lower_eq_empty : ∀ s, lower s = "" ↔ s = ""
  /-- Lower-casing first does not change the case folding. -/
  casefold_lower : ∀ s, casefold (lower s) = casefold s

/-- Map the characters of a string. -/
def mapChars (f : Char → Char) (s : String) : String := String.ofList (s.toList.map f)

theorem mapChars_eq_empty (f : Char → Char) (s : String) : mapChars f s = "" ↔ s = "" := by
  rw [mapChars, ← String.toList_eq_nil_iff, String.toList_ofList, List.map_eq_nil_iff,
    String.toList_eq_nil_iff]

theorem toLower_of_not_upper (c : Char) (h : ¬ (c.val ≥ 'A'.val ∧ c.val ≤ 'Z'.val)) : c.toLower = c :=
  dif_neg h

theorem toLower_toLower (c : Char) : c.toLower.toLower = c.toLower := by
  by_cases h : c.val ≥ 'A'.val ∧ c.val ≤ 'Z'.val
  · have hval : c.toLower.val = c.val + 32 := congrArg Char.val (dif_pos h)
    have hnot : ¬ (c.toLower.val ≥ 'A'.val ∧ c.toLower.val ≤ 'Z'.val) := by
      have hA : 'A'.val = 65 := rfl
      have hZ : 'Z'.val = 90 := rfl
      rw [hval]
      rw [hA, hZ] at h ⊢
      simp only [ge_iff_le, UInt32.le_iff_toNat_le, UInt32.toNat_add, UInt32.reduceToNat] at h ⊢
      omega
    exact toLower_of_not_upper _ hnot
  · rw [toLower_of_not_upper c h, toLower_of_not_upper c h]

/-- The case mappings on ASCII text. -/
def asciiCase : CaseMaps where
  lower := mapChars Char.toLower
  upper := mapChars Char.toUpper
  casefold := mapChars Char.toLower
  lower_eq_empty := mapChars_eq_empty Char.toLower
  casefold_lower s := by
    rw [mapChars, mapChars, String.toList_ofList, List.map_map]
    exact congrArg String.ofList (List.map_congr_left fun c _ => toLower_toLower c)

/-- One table of `schema.yaml` as the guard's lookup keeps it. -/
structure SchemaTable where
  /-- The table's key. -/
  key : String
  /-- The bare name, the last part of the key. -/
  bare : String
  /-- The effective qualifier's parts, as written; empty for none. -/
  qualifier : List String
  /-- The column names, as written and in order. -/
  columns : List String
  deriving DecidableEq, Repr

/-- **The schema lookup** `_build_schema_lookup` builds: the tables in `schema.yaml` order, no key
twice, every one of them named. -/
structure Schema where
  /-- The case mappings names are compared under. -/
  case : CaseMaps
  /-- The tables, in order. -/
  tables : List SchemaTable
  /-- A mapping has one entry a key. -/
  keys_nodup : (tables.map (·.key)).Nodup
  /-- A key's last part is a name. -/
  bare_ne_empty : ∀ t ∈ tables, t.bare ≠ ""
  /-- `get_table_columns` leaves a table without columns out. -/
  columns_ne_nil : ∀ t ∈ tables, t.columns ≠ []

namespace Schema

variable (S : Schema)

/-- `_QUALIFIER_PARTS[key]`. -/
def qualifierParts (t : SchemaTable) : List String := t.qualifier.map S.case.lower

/-- `_BARE_NAME_INDEX.get(name.lower(), ())`. -/
def bareNameIndex (name : String) : List SchemaTable :=
  S.tables.filter fun t => S.case.lower t.bare = S.case.lower name

/-- `_COLUMNS_BY_TABLE[key]`: the lower-cased column names of a table. -/
def columnsByTable (t : SchemaTable) : List String := (t.columns.map S.case.lower).dedup

theorem mem_bareNameIndex {name : String} {t : SchemaTable} :
    t ∈ S.bareNameIndex name ↔ t ∈ S.tables ∧ S.case.lower t.bare = S.case.lower name := by
  simp [bareNameIndex]

end Schema

/-! ## Matching one reference -/

/-- The outcomes of `_match_table_ref`. -/
inductive MatchStatus where
  | resolved
  | unknown
  | ambiguous
  | qualifierMismatch
  | multiPartOnly
  deriving DecidableEq, Repr

/-- `_TableMatch`. -/
structure TableMatch where
  /-- The table, when exactly one matches. -/
  canonical : Option SchemaTable
  /-- Every same-bare-name table considered. -/
  candidates : List SchemaTable
  /-- The outcome. -/
  status : MatchStatus
  deriving DecidableEq, Repr

/-- `_match_table_ref`: resolve a reference's bare name and lower-cased qualifier parts. -/
def matchTableRef (S : Schema) (name : String) (qualifier : List String) : TableMatch :=
  let candidates := S.bareNameIndex name
  match candidates with
  | [] => ⟨none, [], .unknown⟩
  | first :: others =>
    if qualifier ≠ [] then
      match candidates.filter fun t => S.qualifierParts t = qualifier with
      | [t] => ⟨some t, candidates, .resolved⟩
      | t :: u :: rest => ⟨none, t :: u :: rest, .ambiguous⟩
      | [] =>
        -- a table with no known qualifier accepts any
        match candidates.filter fun t => S.qualifierParts t = [] with
        | [t] => ⟨some t, candidates, .resolved⟩
        | t :: u :: rest => ⟨none, t :: u :: rest, .ambiguous⟩
        | [] => ⟨none, candidates, .qualifierMismatch⟩
    else if others = [] then
      if (S.qualifierParts first).length ≤ 1 then ⟨some first, candidates, .resolved⟩
      else ⟨none, candidates, .multiPartOnly⟩
    else ⟨none, candidates, .ambiguous⟩

/-- **A reference denotes a table**: the bare names agree; an unqualified reference reaches a table
at most one qualifier part away; a qualified one writes the table's own qualifier, or the table has
none on record and no other table claims the written one. -/
def Denotes (S : Schema) (t : SchemaTable) (name : String) (qualifier : List String) : Prop :=
  S.case.lower t.bare = S.case.lower name ∧
    (qualifier = [] → (S.qualifierParts t).length ≤ 1) ∧
    (qualifier ≠ [] → S.qualifierParts t = qualifier ∨
      (S.qualifierParts t = [] ∧ ∀ u ∈ S.tables, S.case.lower u.bare = S.case.lower name →
        S.qualifierParts u ≠ qualifier))

/-- **A reference resolves**: it denotes exactly one allowlisted table. -/
def Resolves (S : Schema) (name : String) (qualifier : List String) : Prop :=
  ∃! t, t ∈ S.tables ∧ Denotes S t name qualifier

/-- A list that filters to one element has that element only among its matches. -/
theorem eq_of_filter_eq_singleton {α : Type*} {p : α → Bool} {l : List α} {a b : α}
    (h : l.filter p = [a]) (hb : b ∈ l) (hp : p b = true) : b = a := by
  have hmem : b ∈ l.filter p := List.mem_filter.mpr ⟨hb, hp⟩
  rwa [h, List.mem_singleton] at hmem

theorem mem_of_filter_eq_singleton {α : Type*} {p : α → Bool} {l : List α} {a : α}
    (h : l.filter p = [a]) : a ∈ l ∧ p a = true := by
  have hmem : a ∈ l.filter p := by simp [h]
  exact List.mem_filter.mp hmem

/-- **Spec of `matchTableRef`**: a resolved match is the only table its reference denotes. -/
theorem matchTableRef_resolved {S : Schema} {name : String} {qualifier : List String}
    (h : (matchTableRef S name qualifier).status = .resolved) :
    ∃ t, (matchTableRef S name qualifier).canonical = some t ∧ t ∈ S.tables ∧
      Denotes S t name qualifier ∧ ∀ u ∈ S.tables, Denotes S u name qualifier → u = t := by
  have hmem : ∀ t, t ∈ S.bareNameIndex name ↔
      t ∈ S.tables ∧ S.case.lower t.bare = S.case.lower name := fun _ => S.mem_bareNameIndex
  unfold matchTableRef at h ⊢
  generalize S.bareNameIndex name = candidates at h hmem ⊢
  cases candidates with
  | nil => simp at h
  | cons first others =>
    simp only at h ⊢
    by_cases hq : qualifier ≠ []
    · rw [if_pos hq] at h ⊢
      cases hexact : (first :: others).filter fun t => S.qualifierParts t = qualifier with
      | cons t rest =>
        cases rest with
        | cons u rest => simp [hexact] at h
        | nil =>
          obtain ⟨ht, htq⟩ := mem_of_filter_eq_singleton hexact
          rw [decide_eq_true_eq] at htq
          obtain ⟨htS, htb⟩ := (hmem t).mp ht
          refine ⟨t, rfl, htS, ⟨htb, fun h0 => absurd h0 hq, fun _ => Or.inl htq⟩, ?_⟩
          rintro u huS ⟨hub, -, huq⟩
          have hu := (hmem u).mpr ⟨huS, hub⟩
          rcases huq hq with hu' | ⟨-, hnone⟩
          · exact eq_of_filter_eq_singleton hexact hu (by simpa using hu')
          · exact absurd htq (hnone t htS htb)
      | nil =>
        rw [hexact] at h
        simp only at h ⊢
        have hnone : ∀ u ∈ S.tables, S.case.lower u.bare = S.case.lower name →
            S.qualifierParts u ≠ qualifier := by
          intro u huS hub huq
          have hu : u ∈ (first :: others).filter fun t => S.qualifierParts t = qualifier :=
            List.mem_filter.mpr ⟨(hmem u).mpr ⟨huS, hub⟩, by simpa using huq⟩
          rw [hexact] at hu
          cases hu
        cases hloose : (first :: others).filter fun t => S.qualifierParts t = [] with
        | nil => simp [hloose] at h
        | cons t rest =>
          cases rest with
          | cons u rest => simp [hloose] at h
          | nil =>
            obtain ⟨ht, htq⟩ := mem_of_filter_eq_singleton hloose
            rw [decide_eq_true_eq] at htq
            obtain ⟨htS, htb⟩ := (hmem t).mp ht
            refine ⟨t, rfl, htS, ⟨htb, fun h0 => absurd h0 hq, fun _ => Or.inr ⟨htq, hnone⟩⟩, ?_⟩
            rintro u huS ⟨hub, -, huq⟩
            rcases huq hq with hu' | ⟨hu', -⟩
            · exact absurd hu' (hnone u huS hub)
            · exact eq_of_filter_eq_singleton hloose ((hmem u).mpr ⟨huS, hub⟩) (by simpa using hu')
    · rw [if_neg hq] at h ⊢
      by_cases hothers : others = []
      · rw [if_pos hothers] at h ⊢
        by_cases hlen : (S.qualifierParts first).length ≤ 1
        · rw [if_pos hlen]
          obtain ⟨hS, hb⟩ := (hmem first).mp (by simp)
          refine ⟨first, rfl, hS, ⟨hb, fun _ => hlen, fun h1 => absurd h1 hq⟩, ?_⟩
          rintro u huS ⟨hub, -, -⟩
          have hu := (hmem u).mpr ⟨huS, hub⟩
          simpa [hothers] using hu
        · simp [hlen] at h
      · simp [hothers] at h

theorem resolves_of_resolved {S : Schema} {name : String} {qualifier : List String}
    (h : (matchTableRef S name qualifier).status = .resolved) : Resolves S name qualifier := by
  obtain ⟨t, -, htS, htd, huniq⟩ := matchTableRef_resolved h
  exact ⟨t, ⟨htS, htd⟩, fun u hu => huniq u hu.1 hu.2⟩

/-- Only a resolved match names a table. -/
theorem resolved_of_canonical {S : Schema} {name : String} {qualifier : List String}
    {t : SchemaTable} (h : (matchTableRef S name qualifier).canonical = some t) :
    (matchTableRef S name qualifier).status = .resolved := by
  unfold matchTableRef at h ⊢
  generalize S.bareNameIndex name = candidates at h ⊢
  cases candidates with
  | nil => cases h
  | cons first others =>
    simp only at h ⊢
    split at h
    · rename_i hq
      rw [if_pos hq]
      split at h
      · rfl
      · cases h
      · split at h
        · rfl
        · cases h
        · cases h
    · rename_i hq
      rw [if_neg hq]
      split at h
      · rename_i hothers
        rw [if_pos hothers]
        split at h
        · rename_i hlen
          rw [if_pos hlen]
        · cases h
      · cases h

theorem mem_tables_of_canonical {S : Schema} {name : String} {qualifier : List String}
    {t : SchemaTable} (h : (matchTableRef S name qualifier).canonical = some t) : t ∈ S.tables := by
  obtain ⟨t', ht', hmem, -⟩ := matchTableRef_resolved (resolved_of_canonical h)
  rw [h, Option.some.injEq] at ht'
  exact ht' ▸ hmem

/-- A reference without a name resolves to nothing. -/
theorem not_resolves_empty {S : Schema} {qualifier : List String} : ¬ Resolves S "" qualifier := by
  rintro ⟨t, ⟨htS, hbare, -⟩, -⟩
  rw [(S.case.lower_eq_empty "").mpr rfl, S.case.lower_eq_empty] at hbare
  exact S.bare_ne_empty t htS hbare

/-! ## References inside a statement -/

/-- The lower-cased names of the CTEs among some nodes, unnamed ones left out. -/
def aliasesOf (C : CaseMaps) (ctes : List Expr) : List String :=
  ((ctes.map (·.aliasName)).filter (· ≠ "")).map C.lower

theorem mem_aliasesOf {C : CaseMaps} {ctes : List Expr} {s : String} :
    s ∈ aliasesOf C ctes ↔ ∃ e ∈ ctes, e.aliasName ≠ "" ∧ C.lower e.aliasName = s := by
  simp only [aliasesOf, List.mem_map, List.mem_filter, decide_eq_true_eq]
  constructor
  · rintro ⟨_, ⟨⟨e, he, rfl⟩, hne⟩, rfl⟩
    exact ⟨e, he, hne, rfl⟩
  · rintro ⟨e, he, hne, rfl⟩
    exact ⟨_, ⟨⟨e, he, rfl⟩, hne⟩, rfl⟩

/-- No CTE name is empty. -/
theorem lower_empty_not_mem_aliasesOf {C : CaseMaps} {ctes : List Expr} :
    C.lower "" ∉ aliasesOf C ctes := by
  intro h
  obtain ⟨e, -, hne, heq⟩ := mem_aliasesOf.mp h
  rw [(C.lower_eq_empty "").mpr rfl, C.lower_eq_empty] at heq
  exact hne heq

/-- `_cte_names`: the lower-cased names of every CTE defined anywhere in a statement. -/
def cteNames (C : CaseMaps) (tree : Expr) : List String :=
  aliasesOf C ((findAll Cls.isCte tree).map (·.node))

theorem mem_cteNames {C : CaseMaps} {tree : Expr} {s : String} :
    s ∈ cteNames C tree ↔ ∃ o, InTree tree o ∧ o.node.cls = .cte ∧ o.node.aliasName ≠ "" ∧
      C.lower o.node.aliasName = s := by
  simp only [cteNames, mem_aliasesOf, List.mem_map, mem_findAll]
  constructor
  · rintro ⟨e, ⟨o, ⟨ho, hcls⟩, rfl⟩, hne, heq⟩
    exact ⟨o, ho, Cls.isCte_iff.mp hcls, hne, heq⟩
  · rintro ⟨o, ho, hcls, hne, heq⟩
    exact ⟨o.node, ⟨o, ⟨ho, Cls.isCte_iff.mpr hcls⟩, rfl⟩, hne, heq⟩

/-- `_table_ref_name_and_qualifier`: a table node's bare name and lower-cased qualifier parts. -/
def tableRefNameAndQualifier (C : CaseMaps) (table : Expr) : String × List String :=
  let parts := table.tableRefParts
  (parts.getLast?.getD "", parts.dropLast.map C.lower)

/-- `_resolve_table_name`: the table a node means, `none` for a CTE name, an empty name or a
reference that does not resolve. -/
def resolveTableName (S : Schema) (ctes : List String) (table : Expr) : Option SchemaTable :=
  let (name, qualifier) := tableRefNameAndQualifier S.case table
  if name = "" ∨ S.case.lower name ∈ ctes then none else (matchTableRef S name qualifier).canonical

theorem canonical_of_resolveTableName {S : Schema} {ctes : List String} {table : Expr}
    {t : SchemaTable} (h : resolveTableName S ctes table = some t) :
    (matchTableRef S (tableRefNameAndQualifier S.case table).1
      (tableRefNameAndQualifier S.case table).2).canonical = some t := by
  simp only [resolveTableName] at h
  split at h
  · cases h
  · exact h

theorem mem_tables_of_resolveTableName {S : Schema} {ctes : List String} {table : Expr}
    {t : SchemaTable} (h : resolveTableName S ctes table = some t) : t ∈ S.tables :=
  mem_tables_of_canonical (canonical_of_resolveTableName h)

/-- The canonical tables a statement's table nodes resolve to, each once. -/
def resolvedTables (S : Schema) (tree : Expr) : List SchemaTable :=
  (((findAll Cls.isTable tree).map (·.node)).filterMap
    (resolveTableName S (cteNames S.case tree))).dedup

/-- `_collect_table_alias_map`: every alias, and every bare name exactly one source writes, with
its table. A later write of the same name wins. -/
def tableAliasMap (S : Schema) (tree : Expr) : List (String × SchemaTable) :=
  let resolved := ((findAll Cls.isTable tree).map (·.node)).filterMap fun table =>
    (resolveTableName S (cteNames S.case tree) table).map fun t => (table, t)
  let aliases := resolved.filterMap fun (table, t) =>
    if table.aliasName = "" then none else some (S.case.lower table.aliasName, t)
  let names := resolved.map fun (table, t) => (S.case.lower table.name, t)
  aliases ++ names.filter fun (name, _) => (names.map (·.1)).count name = 1

/-- `alias_map.get(name)`. -/
def aliasLookup (aliasMap : List (String × SchemaTable)) (name : String) : Option SchemaTable :=
  aliasMap.reverse.lookup name

end LocalSqlAgent
