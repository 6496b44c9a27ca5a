import LocalSqlAgent.Appdb.KeyStore
import LocalSqlAgent.Lib.PyText
import LocalSqlAgent.Security.ValidateSql
import Mathlib.Data.List.DropRight

/-! # The column policy of a key

`security.column_policy`: the stored entries of a key, read into fully denied names and join-only
columns, and the join-only columns resolved against the schema for one data source. `validateSqlWith` is
the guard on a key's stored entries. -/

namespace LocalSqlAgent

/-! ## Reading one entry -/

/-- `_is_edge_noise`. -/
def isEdgeNoise : EdgeNoise := fun c => isPySpace c || isFormatChar c

/-- `without_format_characters`. -/
def withoutFormatCharacters (text : String) : String :=
  String.ofList (text.toList.filter fun c => !isFormatChar c)

/-- The text an entry is read as: cleaned at its ends, or as written when nothing visible is left. -/
def entryText (entry : String) : String :=
  if normalizeDeniedEntry isEdgeNoise entry = "" then entry else normalizeDeniedEntry isEdgeNoise entry

/-- Stripping both ends leaves nothing to strip. -/
theorem normalizeDeniedEntry_idem (noise : EdgeNoise) (entry : String) :
    normalizeDeniedEntry noise (normalizeDeniedEntry noise entry) =
      normalizeDeniedEntry noise entry := by
  have hleft : ∀ l : List Char, ((l.dropWhile noise).rdropWhile noise).dropWhile noise =
      (l.dropWhile noise).rdropWhile noise := by
    intro l
    rw [List.dropWhile_eq_self_iff]
    intro hpos
    -- what is left starts as the text stripped on the left does
    have hpre := List.rdropWhile_prefix noise (l := l.dropWhile noise)
    have hne : l.dropWhile noise ≠ [] := by
      intro hnil
      rw [hnil, List.rdropWhile_nil] at hpos
      cases hpos
    have hhead := List.head_dropWhile_not noise hne
    have hget := hpre.getElem (i := 0) hpos
    rw [hget, ← List.head_eq_getElem hne]
    simp [hhead]
  have hboth : ∀ l : List Char, (((l.dropWhile noise).rdropWhile noise).dropWhile noise).rdropWhile
      noise = (l.dropWhile noise).rdropWhile noise := by
    intro l
    rw [hleft, List.rdropWhile_idempotent]
  rw [normalizeDeniedEntry, normalizeDeniedEntry, String.toList_ofList]
  exact congrArg String.ofList (hboth entry.toList)

theorem entryText_idem (entry : String) : entryText (entryText entry) = entryText entry := by
  by_cases h : normalizeDeniedEntry isEdgeNoise entry = ""
  · simp [entryText, h]
  · simp [entryText, h, normalizeDeniedEntry_idem]

/-- `_is_plain`: neither a colon nor a dot. -/
def isPlain (text : String) : Bool := ':' ∉ text.toList && '.' ∉ text.toList

theorem ne_empty_of_not_plain {text : String} (h : isPlain text = false) : text ≠ "" := by
  rintro rfl
  exact absurd h (by decide)

/-- **`ScopedColumn`**: a join-only entry. -/
structure ScopedColumn where
  /-- The data source, `none` for every source. -/
  datasource : Option String
  /-- The table as written, `none` for every table of the source. -/
  table : Option String
  /-- The column as written. -/
  column : String
  /-- The entry, the text rejections report. -/
  entry : String
  /-- An entry has a separator in it. -/
  entry_ne_empty : entry ≠ ""
  deriving DecidableEq, Repr

/-- `ScopedColumn.key`. -/
def ScopedColumn.key (C : CaseMaps) (s : ScopedColumn) : String × String × String :=
  (C.casefold (s.datasource.getD ""), C.casefold (s.table.getD ""), C.casefold s.column)

/-- `_entry_error`. -/
def entryError (repr : String → String) (entry reason : String) : String :=
  "denied_columns entry " ++ repr entry ++ ": " ++ reason

/-- `str.strip`. -/
def stripText (s : String) : String := String.ofList (strip s.toList)

/-- The text before the first colon, stripped, and the text after it. -/
def splitSource (entry : String) : Option String × String :=
  if ':' ∈ entry.toList then
    (some (stripText (String.ofList (entry.toList.takeWhile (· ≠ ':')))),
      String.ofList (entry.toList.dropWhile (· ≠ ':')).tail)
  else (none, entry)

/-- `_parse_scoped`. -/
def parseScoped (repr : String → String) (entry : String) (h : entry ≠ "") :
    Except String ScopedColumn :=
  let (datasource, rest) := splitSource entry
  let parts := (splitText '.' rest).map stripText
  if 1 < entry.toList.count ':' then
    .error (entryError repr entry
      "at most one ':' is allowed (Source:schema.Table.Column or Source:Column)")
  else if datasource = some "" then
    .error (entryError repr entry "the data source before ':' is empty")
  else if "" ∈ parts then
    .error (entryError repr entry "has an empty part (check for a stray '.' or ':')")
  else if 5 < parts.length then
    .error (entryError repr entry
      ("the table part has too many parts (at most catalog.database.schema.Table " ++
        "before the column)"))
  else
    .ok ⟨datasource, if parts.length = 1 then none else some (joinStrings "." parts.dropLast),
      parts.getLast?.getD "", entry, h⟩

theorem parseScoped_entry {repr : String → String} {entry : String} {h : entry ≠ ""}
    {s : ScopedColumn} (hparse : parseScoped repr entry h = .ok s) : s.entry = entry := by
  unfold parseScoped at hparse
  simp only at hparse
  generalize (splitText '.' (splitSource entry).2).map stripText = parts at hparse
  split at hparse
  · cases hparse
  · split at hparse
    · cases hparse
    · split at hparse
      · cases hparse
      · split at hparse
        · cases hparse
        · rw [← Except.ok.inj hparse]

/-- What `parse_column_policy` makes of an entry: denied names, a join-only column, or an error. -/
inductive EntryReading where
  | denies (names : List String)
  | restricts (column : ScopedColumn)
  | malformed (message : String)
  deriving DecidableEq, Repr

/-- The reading of an entry with a separator. -/
def EntryReading.ofScoped : Except String ScopedColumn → EntryReading
  | .ok column => .restricts column
  | .error message => .malformed message

theorem EntryReading.ofScoped_eq_restricts {x : Except String ScopedColumn} {s : ScopedColumn} :
    ofScoped x = .restricts s ↔ x = .ok s := by
  cases x <;> simp [ofScoped]

/-- The reading of an entry. A plain one denies its own spelling and, when a format character stands
inside, the spelling without it. -/
def readDeniedEntry (C : CaseMaps) (repr : String → String) (entry : String) : EntryReading :=
  let text := entryText entry
  if h : isPlain text = false then .ofScoped (parseScoped repr text (ne_empty_of_not_plain h))
  else
    let plain := if normalizeDeniedEntry isEdgeNoise entry = "" then "" else
      withoutFormatCharacters text
    .denies (C.upper text :: if plain ≠ "" ∧ plain ≠ text then [C.upper plain] else [])

/-- The reading of an entry whose text has a separator. -/
theorem readDeniedEntry_of_separator {C : CaseMaps} {repr : String → String} {entry text : String}
    (htext : entryText entry = text) (h : isPlain text = false) :
    readDeniedEntry C repr entry = .ofScoped (parseScoped repr text (ne_empty_of_not_plain h)) := by
  subst htext
  unfold readDeniedEntry
  exact dif_pos h

/-- **Cleaning an entry first** does not change how it reads. -/
theorem readDeniedEntry_entryText {C : CaseMaps} {repr : String → String} (entry : String) :
    readDeniedEntry C repr (entryText entry) = readDeniedEntry C repr entry := by
  by_cases hplain : isPlain (entryText entry) = false
  · rw [readDeniedEntry_of_separator (entryText_idem entry) hplain, readDeniedEntry_of_separator rfl hplain]
  · have hclean : normalizeDeniedEntry isEdgeNoise (entryText entry) =
        normalizeDeniedEntry isEdgeNoise entry := by
      unfold entryText
      split
      · rfl
      · exact normalizeDeniedEntry_idem isEdgeNoise entry
    unfold readDeniedEntry
    simp only [entryText_idem, hclean, dif_neg hplain]

/-- A join-only column keeps the text it was read from, and that text reads the same. -/
theorem readDeniedEntry_restricts {C : CaseMaps} {repr : String → String} {entry : String}
    {s : ScopedColumn} (h : readDeniedEntry C repr entry = .restricts s) :
    s.entry = entryText entry ∧ readDeniedEntry C repr s.entry = .restricts s := by
  have hentry : s.entry = entryText entry := by
    by_cases hplain : isPlain (entryText entry) = false
    · rw [readDeniedEntry_of_separator rfl hplain, EntryReading.ofScoped_eq_restricts] at h
      exact parseScoped_entry h
    · unfold readDeniedEntry at h
      rw [dif_neg hplain] at h
      cases h
  rw [hentry, readDeniedEntry_entryText]
  exact ⟨rfl, h⟩

/-! ## Parsing the entries -/

/-- `ColumnPolicy`. -/
structure ColumnPolicy where
  /-- The fully denied names, upper-cased. -/
  denied : List String := []
  /-- The join-only columns, in the order read, none twice. -/
  joinOnly : List ScopedColumn := []
  deriving DecidableEq, Repr

section Parse

variable (C : CaseMaps) (repr : String → String)

/-- One turn of the loop of `parse_column_policy`. -/
def ColumnPolicy.add (policy : ColumnPolicy) (entry : String) : Except String ColumnPolicy :=
  match readDeniedEntry C repr entry with
  | .denies names => .ok { policy with denied := policy.denied ++ names }
  | .restricts column =>
    .ok (if column.key C ∈ policy.joinOnly.map (·.key C) then policy
      else { policy with joinOnly := policy.joinOnly ++ [column] })
  | .malformed message => .error message

/-- The loop from the policy read so far. -/
def parseFrom (policy : ColumnPolicy) : List String → Except String ColumnPolicy
  | [] => .ok policy
  | entry :: rest => do
    let policy' ← policy.add C repr entry
    parseFrom policy' rest

/-- **`parse_column_policy`** without validation, on the entries in the order the set lists them. -/
def parseColumnPolicy (entries : List String) : Except String ColumnPolicy :=
  parseFrom C repr {} entries

end Parse

/-- An entry fully denies a column name, in any spelling of it. -/
def DeniesColumn (C : CaseMaps) (repr : String → String) (entry column : String) : Prop :=
  ∃ names, readDeniedEntry C repr entry = .denies names ∧ C.upper column ∈ names

/-- Two entries restrict the same column to join keys. -/
def SameRestriction (C : CaseMaps) (repr : String → String) (entry entry' : String) : Prop :=
  ∃ s s', readDeniedEntry C repr entry = .restricts s ∧ readDeniedEntry C repr entry' = .restricts s' ∧
    s.key C = s'.key C

/-- An entry that makes the whole policy unreadable. -/
def Malformed (C : CaseMaps) (repr : String → String) (entry : String) : Prop :=
  ∃ message, readDeniedEntry C repr entry = .malformed message

variable {C : CaseMaps} {repr : String → String}

/-- What one entry adds. -/
theorem ColumnPolicy.add_ok {policy policy' : ColumnPolicy} {entry : String}
    (h : policy.add C repr entry = .ok policy') :
    (∀ n, n ∈ policy'.denied ↔
      n ∈ policy.denied ∨ ∃ names, readDeniedEntry C repr entry = .denies names ∧ n ∈ names) ∧
    ∀ s ∈ policy'.joinOnly, s ∈ policy.joinOnly ∨ readDeniedEntry C repr entry = .restricts s := by
  unfold ColumnPolicy.add at h
  split at h
  · rename_i names hread
    cases h
    simp only [hread]
    refine ⟨fun n => ?_, fun s hs => Or.inl hs⟩
    rw [List.mem_append]
    simp
  · rename_i column hread
    cases h
    simp only [hread]
    split
    · exact ⟨fun n => by simp, fun s hs => Or.inl hs⟩
    · refine ⟨fun n => by simp, fun s hs => ?_⟩
      rcases List.mem_append.mp hs with hs | hs
      · exact Or.inl hs
      · rw [List.mem_singleton] at hs
        exact Or.inr (hs ▸ rfl)
  · cases h

/-- **What a policy denies** is what its entries deny. -/
theorem parseFrom_ok {policy policy' : ColumnPolicy} {entries : List String}
    (h : parseFrom C repr policy entries = .ok policy') :
    (∀ n, n ∈ policy'.denied ↔ n ∈ policy.denied ∨
      ∃ entry ∈ entries, ∃ names, readDeniedEntry C repr entry = .denies names ∧ n ∈ names) ∧
    ∀ s ∈ policy'.joinOnly,
      s ∈ policy.joinOnly ∨ ∃ entry ∈ entries, readDeniedEntry C repr entry = .restricts s := by
  induction entries generalizing policy with
  | nil =>
    cases h
    simp
  | cons entry rest ih =>
    rw [parseFrom, bind_ok_iff] at h
    obtain ⟨mid, hadd, hrest⟩ := h
    obtain ⟨hdenied, hjoin⟩ := ColumnPolicy.add_ok hadd
    obtain ⟨hdenied', hjoin'⟩ := ih hrest
    constructor
    · intro n
      rw [hdenied', hdenied, or_assoc]
      simp
    · intro s hs
      rcases hjoin' s hs with hs | ⟨entry', hmem, hread⟩
      · rcases hjoin s hs with hs | hread
        · exact Or.inl hs
        · exact Or.inr ⟨entry, List.mem_cons_self, hread⟩
      · exact Or.inr ⟨entry', List.mem_cons_of_mem _ hmem, hread⟩

/-- An entry is added unless it is malformed. -/
theorem ColumnPolicy.exists_add_ok {policy : ColumnPolicy} {entry : String} :
    (∃ policy', policy.add C repr entry = .ok policy') ↔ ¬ Malformed C repr entry := by
  unfold ColumnPolicy.add Malformed
  split
  · rename_i names hread
    simp [hread]
  · rename_i column hread
    simp [hread]
  · rename_i message hread
    simp [hread]

/-- **The entries parse** when none is malformed. -/
theorem exists_parseFrom_ok {policy : ColumnPolicy} {entries : List String} :
    (∃ policy', parseFrom C repr policy entries = .ok policy') ↔
      ∀ entry ∈ entries, ¬ Malformed C repr entry := by
  induction entries generalizing policy with
  | nil => simp [parseFrom]
  | cons entry rest ih =>
    have hhead : (∃ mid, policy.add C repr entry = .ok mid) ↔ ¬ Malformed C repr entry :=
      ColumnPolicy.exists_add_ok
    rw [List.forall_mem_cons, ← hhead]
    simp only [parseFrom, bind_ok_iff]
    constructor
    · rintro ⟨policy', mid, hadd, hrest⟩
      exact ⟨⟨mid, hadd⟩, ih.mp ⟨policy', hrest⟩⟩
    · rintro ⟨⟨mid, hadd⟩, hrest⟩
      have hparse : ∃ policy', parseFrom C repr mid rest = .ok policy' := ih.mpr hrest
      obtain ⟨policy', hparse⟩ := hparse
      exact ⟨policy', mid, hadd, hparse⟩

/-! ## Resolving the join-only columns -/

section Resolve

variable (E : GuardEnv)

/-- `_norm`: a dotted name, case-folded, the brackets of its parts removed. -/
def normName (C : CaseMaps) (text : String) : String :=
  joinStrings "." ((splitText '.' text).map fun part =>
    C.casefold (String.ofList (stripSet ['[', ']'] (strip part.toList))))

/-- The spellings `_match_table` compares first: the key, and the qualifier with the bare name. -/
def tableSpellings (C : CaseMaps) (t : SchemaTable) : List String :=
  normName C t.key ::
    if t.qualifier = [] then [] else [normName C (joinStrings "." (t.qualifier ++ [t.bare]))]

/-- `_match_table`: the table a text names, if any. -/
def matchTable (text : String) : Except String (Option SchemaTable) :=
  let C := E.schema.case
  let wanted := normName C text
  match E.schema.tables.filter fun t => wanted ∈ tableSpellings C t with
  | [t] => .ok (some t)
  | t :: u :: rest =>
    .error ("table " ++ E.repr text ++ " is ambiguous: matches " ++
      listRepr E.repr (sortedStrings ((t :: u :: rest).map (·.key))))
  | [] =>
    if '.' ∈ wanted.toList then .ok none
    else
      match E.schema.tables.filter fun t => C.casefold t.bare = wanted with
      | [] => .ok none
      | [t] => .ok (some t)
      | t :: u :: rest =>
        .error ("table " ++ E.repr text ++ " exists in more than one schema " ++
          listRepr E.repr (sortedStrings ((t :: u :: rest).map (·.key))) ++
          "; write schema.Table to say which")

/-- `_configured_source`. -/
def configuredSource (name : String) : Option String :=
  E.datasources.names.find? fun configured =>
    E.schema.case.casefold configured = E.schema.case.casefold name

/-- The source of an entry: `none` for every source, an error for one that is not configured. -/
def entrySource (s : ScopedColumn) : Except String (Option String) :=
  match s.datasource with
  | none => .ok none
  | some name =>
    match configuredSource E name with
    | some source => .ok (some source)
    | none => .error (entryError E.repr s.entry ("data source " ++ E.repr name ++
        " is not configured (configured: " ++
        listRepr E.repr (sortedStrings E.datasources.names) ++ ")"))

/-- The tables of an entry on its source. -/
def entryTables (s : ScopedColumn) (source : Option String) : Except String (List SchemaTable) :=
  let column := E.schema.case.casefold s.column
  match s.table with
  | some text =>
    match matchTable E text with
    | .error message => .error (entryError E.repr s.entry message)
    | .ok none => .error (entryError E.repr s.entry ("table " ++ E.repr text ++
        " is not in schema.yaml"))
    | .ok (some t) =>
      if column ∉ E.schema.columnsByTable t then
        .error (entryError E.repr s.entry ("table " ++ E.repr t.key ++ " has no column " ++
          E.repr s.column))
      else if source.any (· ∉ E.datasources.sourcesOf t.key) = true then
        .error (entryError E.repr s.entry ("table " ++ E.repr t.key ++ " is not in data source " ++
          E.repr (source.getD "") ++ " (it is in: " ++
          listRepr E.repr (sortedStrings (E.datasources.sourcesOf t.key)) ++ ")"))
      else .ok [t]
  | none =>
    match E.schema.tables.filter fun t => column ∈ E.schema.columnsByTable t ∧
        source.all (· ∈ E.datasources.sourcesOf t.key) = true with
    | [] => .error (entryError E.repr s.entry ("no table of data source " ++
        E.repr (source.getD "") ++ " has a column " ++ E.repr s.column))
    | t :: rest => .ok (t :: rest)

/-- `_resolve_entry`. -/
def resolveEntry (s : ScopedColumn) : Except String (Option String × List SchemaTable) := do
  let source ← entrySource E s
  let tables ← entryTables E s source
  return (source, tables)

/-- `setdefault(column, entry)` in one table's mapping. -/
def restrictColumn (column entry : String) (columns : List (String × String)) :
    List (String × String) :=
  if column ∈ columns.map (·.1) then columns else columns ++ [(column, entry)]

/-- `by_table.setdefault(table, {}).setdefault(column, entry)`. -/
def restrictTable (table column entry : String) :
    List (String × List (String × String)) → List (String × List (String × String))
  | [] => [(table, [(column, entry)])]
  | (key, columns) :: rest =>
    if key = table then (key, restrictColumn column entry columns) :: rest
    else (key, columns) :: restrictTable table column entry rest

theorem mem_restrictColumn {column entry : String} {columns : List (String × String)}
    {c : String × String} (h : c ∈ restrictColumn column entry columns) :
    c ∈ columns ∨ c.2 = entry := by
  unfold restrictColumn at h
  split at h
  · exact Or.inl h
  · rcases List.mem_append.mp h with h | h
    · exact Or.inl h
    · exact Or.inr (by rw [List.mem_singleton.mp h])

/-- A write adds one entry and no other. -/
theorem mem_restrictTable {table column entry : String}
    {byTable : List (String × List (String × String))} {t : String × List (String × String)}
    {c : String × String} (ht : t ∈ restrictTable table column entry byTable) (hc : c ∈ t.2) :
    (∃ t' ∈ byTable, c ∈ t'.2) ∨ c.2 = entry := by
  induction byTable with
  | nil =>
    rw [restrictTable, List.mem_singleton] at ht
    subst ht
    exact Or.inr (by rw [List.mem_singleton.mp hc])
  | cons head rest ih =>
    obtain ⟨key, columns⟩ := head
    rw [restrictTable] at ht
    split at ht
    · rcases List.mem_cons.mp ht with rfl | ht
      · exact (mem_restrictColumn hc).imp_left fun hc => ⟨_, List.mem_cons_self, hc⟩
      · exact Or.inl ⟨t, List.mem_cons_of_mem _ ht, hc⟩
    · rcases List.mem_cons.mp ht with rfl | ht
      · exact Or.inl ⟨_, List.mem_cons_self, hc⟩
      · exact (ih ht).imp_left fun ⟨t', ht', hc'⟩ => ⟨t', List.mem_cons_of_mem _ ht', hc'⟩

/-- Restrict the column of an entry on one table. -/
def JoinOnlyRestrictions.restrict (R : JoinOnlyRestrictions) (s : ScopedColumn)
    (t : SchemaTable) : JoinOnlyRestrictions where
  byTable := restrictTable t.key (E.schema.case.casefold s.column) s.entry R.byTable
  entry_ne_empty := by
    intro t ht c hc
    rcases mem_restrictTable ht hc with ⟨t', ht', hc'⟩ | hentry
    · exact R.entry_ne_empty t' ht' c hc'
    · exact hentry ▸ s.entry_ne_empty

/-- Whether an entry is left out on a source: both are known and differ. -/
def otherSource (source entrySource : Option String) : Bool :=
  match source, entrySource with
  | some s, some s' => E.schema.case.casefold s' ≠ E.schema.case.casefold s
  | _, _ => false

/-- The loop of `resolve_join_only`. -/
def resolveFrom (source : Option String) (R : JoinOnlyRestrictions) :
    List ScopedColumn → Except String JoinOnlyRestrictions
  | [] => .ok R
  | s :: rest => do
    let (entrySource, tables) ← resolveEntry E s
    resolveFrom source
      (if otherSource E source entrySource then R else tables.foldl (·.restrict E s) R) rest

/-- **`resolve_join_only`**: the restrictions active on a source (`none` activates all). -/
def resolveJoinOnly (joinOnly : List ScopedColumn) (source : Option String) :
    Except String JoinOnlyRestrictions :=
  resolveFrom E source ⟨[], nofun⟩ joinOnly

/-- The policy as the guard consults it. -/
def ColumnPolicy.guardPolicy (policy : ColumnPolicy) : GuardPolicy where
  denied := policy.denied
  joinOnly := if policy.joinOnly = [] then none else some (resolveJoinOnly E policy.joinOnly)

end Resolve

/-- The policy entries restrictions were built from. -/
def JoinOnlyRestrictions.HasEntry (R : JoinOnlyRestrictions) (entry : String) : Prop :=
  ∃ t ∈ R.byTable, ∃ c ∈ t.2, c.2 = entry

variable {E : GuardEnv}

theorem hasEntry_of_restrict {R : JoinOnlyRestrictions} {s : ScopedColumn} {t : SchemaTable}
    {entry : String} (h : (R.restrict E s t).HasEntry entry) : R.HasEntry entry ∨ entry = s.entry := by
  obtain ⟨t', ht', c, hc, rfl⟩ := h
  exact (mem_restrictTable ht' hc).imp_left fun ⟨t'', ht'', hc''⟩ => ⟨t'', ht'', c, hc'', rfl⟩

theorem hasEntry_of_foldl {R : JoinOnlyRestrictions} {s : ScopedColumn} {tables : List SchemaTable}
    {entry : String} (h : (tables.foldl (·.restrict E s) R).HasEntry entry) :
    R.HasEntry entry ∨ entry = s.entry := by
  induction tables generalizing R with
  | nil => exact Or.inl h
  | cons t rest ih =>
    rcases ih h with h | h
    · exact hasEntry_of_restrict h
    · exact Or.inr h

/-- **The restrictions' entries** are entries of the policy. -/
theorem hasEntry_of_resolveFrom {source : Option String} {R R' : JoinOnlyRestrictions}
    {joinOnly : List ScopedColumn} (h : resolveFrom E source R joinOnly = .ok R') {entry : String}
    (hentry : R'.HasEntry entry) : R.HasEntry entry ∨ ∃ s ∈ joinOnly, s.entry = entry := by
  induction joinOnly generalizing R with
  | nil =>
    cases h
    exact Or.inl hentry
  | cons s rest ih =>
    rw [resolveFrom, bind_ok_iff] at h
    obtain ⟨⟨entrySource, tables⟩, -, hrest⟩ := h
    rcases ih hrest with h | ⟨s', hs', h⟩
    · split at h
      · exact Or.inl h
      · exact (hasEntry_of_foldl h).imp_right fun h => ⟨s, List.mem_cons_self, h.symm⟩
    · exact Or.inr ⟨s', List.mem_cons_of_mem _ hs', h⟩

/-! ## The guard on a key's entries -/

/-- The refusal of a policy that cannot be read. -/
def invalidPolicy (message : String) : Rejection :=
  .policy ("Forbidden keyword detected: the column policy for this key is invalid (" ++ message ++
    ")") .other

/-- **`validate_sql` under a key's entries**, in the order the cached policy's set lists them. The
entries are read after the table checks. -/
def validateSqlWith (E : GuardEnv) (dialect : Dialect) (entries : List String)
    (parsed : List (Option Expr)) : Except Rejection Unit :=
  match parseColumnPolicy E.schema.case E.repr entries with
  | .ok policy => validateStatements E dialect (policy.guardPolicy E) parsed
  | .error message =>
    match parsed.filterMap id with
    | [tree] => do
      checkRoot E tree
      checkAll (fun o => checkNode E dialect (cteNames E.schema.case tree) o.node) (walk tree)
      requireSingleDatasource E tree
      .error (invalidPolicy message)
    | _ => validateStatements E dialect {} parsed

end LocalSqlAgent
