import LocalSqlAgent.Lib.Checks
import LocalSqlAgent.SchemaData.Registry
import LocalSqlAgent.Security.ValidateSql
import Mathlib.Data.Sym.Sym2

/-! # Proposed relationships

`schema_data.relationship_proposals`: joins read from the databases for a person to review, the declared
foreign keys first and then the columns whose names point at a table. What is already written down is left
out.

* **`LocatedTable`**: a queryable table of the file with what the catalogues say of it.
* **`scanKeys`**, **`infer`**: the declared keys of a table, and the link a column's name suggests.
* **`isKnown`**: whether a proposal counts as written down.
* **`proposeRelationships`**: the loop over the tables; **`proposeRelationships_spec`**: what it keeps. -/

namespace LocalSqlAgent

/-! ## Data -/

/-- `ForeignKey`. -/
structure ForeignKey where
  name : String
  columns : List String
  /-- Schema and table in lower case. -/
  refLocation : String × String
  refColumns : List String

/-- `TableInfo` with its declared keys. -/
structure KeyedTable extends TableInfo where
  primaryKey : List String := []
  foreignKeys : List ForeignKey := []

/-- `SourceTables`, with the declared keys. -/
abbrev KeyedCatalogue := OrderedDict (String × String) KeyedTable

/-- An entry of `relationships.yaml`: each field as text, empty where it is missing. -/
structure RelationshipEntry where
  fromTable : String
  fromSchema : String := ""
  fromColumn : String
  toTable : String
  toSchema : String := ""
  toColumn : String

/-- `Proposal`. -/
structure Proposal where
  fromTable : String
  fromSchema : String
  fromColumn : String
  toTable : String
  toSchema : String
  toColumn : String
  joinHint : String
  basis : String
  confidence : String
  datasource : List String

/-- `ProposalSet`. -/
structure ProposalSet where
  proposals : List Proposal := []
  declared : ℕ := 0
  inferred : ℕ := 0
  alreadyKnown : ℕ := 0
  skipped : List (String × String) := []

/-- **`_Table`**: a queryable table of the file that some source has. -/
structure LocatedTable where
  key : String
  qualifier : String
  location : String × String
  /-- The listed columns in lower case. -/
  columns : List String
  /-- By source, what its catalogue says. -/
  info : List (String × KeyedTable)
  located : info ≠ []

namespace LocatedTable

/-- `_Table.bare`. -/
def bare (N : NameReader) (table : LocatedTable) : String := N.bareTableName table.key

/-- `_Table.sources`. -/
def sources (table : LocatedTable) : List String := table.info.map (·.1)

/-- `table.info[source]`. -/
def infoIn (table : LocatedTable) (source : String) : Option KeyedTable :=
  (table.info.find? fun p => p.1 = source).map (·.2)

/-- What the first source says. -/
def first (table : LocatedTable) : KeyedTable := (table.info.head table.located).2

end LocatedTable

/-- What leaves `propose_relationships` as an exception. -/
inductive ProposalError where
  /-- `next` on a key column that the catalogue does not list. -/
  | stopIteration
  /-- `invalid db_schema …: empty part`. -/
  | emptyPart (qualifier : String)
  /-- `invalid db_schema …: at most three parts (server.database.schema) may precede the table name`. -/
  | tooManyParts (qualifier : String)
  deriving DecidableEq

/-- A relationship before it is compared with those written down. -/
structure Candidate where
  source : LocatedTable
  target : LocatedTable
  fromCols : List String
  toCols : List String
  joinHint : String
  basis : String
  confidence : String
  datasource : List String

/-- The fields of `_make`. -/
def Candidate.proposal (N : NameReader) (c : Candidate) : Proposal where
  fromTable := c.source.bare N
  fromSchema := c.source.qualifier
  fromColumn := joinStrings ", " c.fromCols
  toTable := c.target.bare N
  toSchema := c.target.qualifier
  toColumn := joinStrings ", " c.toCols
  joinHint := c.joinHint
  basis := c.basis
  confidence := c.confidence
  datasource := c.datasource

/-- What the loop comes upon: a relationship, or one that is dropped and why. -/
inductive Finding where
  | add (c : Candidate) (declared : Bool)
  | skip (what why : String)

/-! ## Texts -/

/-- `quote_tsql_qualifier`. -/
def quoteTsqlQualifier (qualifier : String) : Except ProposalError String :=
  let parts := splitText '.' qualifier
  if parts.any fun part => strip part.toList = [] then .error (.emptyPart qualifier)
  else if 3 < parts.length then .error (.tooManyParts qualifier)
  else .ok (joinStrings "." (parts.map fun part => quoteTsqlIdentifier (String.ofList (strip part.toList))))

/-- `table_reference_sql`, on a key and its qualifier. -/
def keyReferenceSql (N : NameReader) (key qualifier : String) : Except ProposalError String :=
  let ident := quoteTsqlIdentifier (N.bareTableName key)
  if qualifier = "" then .ok ident else (quoteTsqlQualifier qualifier).map fun q => q ++ "." ++ ident

/-- `_join_hint`. -/
def joinHint (N : NameReader) (source target : LocatedTable) (fromCols toCols : List String) :
    Except ProposalError String := do
  let toRef ← keyReferenceSql N target.key target.qualifier
  let fromRef ← keyReferenceSql N source.key source.qualifier
  let on := joinStrings " AND " ((fromCols.zip toCols).map fun p =>
    fromRef ++ "." ++ quoteTsqlIdentifier p.1 ++ " = " ++ toRef ++ "." ++ quoteTsqlIdentifier p.2)
  return "JOIN " ++ toRef ++ " ON " ++ on

/-- `_make`. -/
def makeCandidate (N : NameReader) (source target : LocatedTable) (fromCols toCols : List String)
    (basis confidence : String) (datasource : List String) : Except ProposalError Candidate :=
  (joinHint N source target fromCols toCols).map fun hint =>
    ⟨source, target, fromCols, toCols, hint, basis, confidence, datasource⟩

/-- The endings `_ID_COLUMN` knows, the longer ones first. -/
def linkEndings : List (List Char) := ["_ID", "_Id", "_id", "ID", "Id"].map String.toList

/-- `_ID_COLUMN.match(name)`'s stem: the shortest that leaves one of the endings. -/
def idStem (name : String) : Option String :=
  let cs := name.toList
  -- `$` also matches before a final line break, which `.` does not match
  let body := if cs.getLast? = some '\n' then cs.dropLast else cs
  let stem := fun ending : List Char => body.take (body.length - ending.length)
  (linkEndings.find? fun ending =>
    decide (ending <:+ body) && decide (stem ending ≠ []) && decide ('\n' ∉ stem ending)).map
      fun ending => String.ofList (stem ending)

/-- `str.isupper`, `str.islower` and `str.isdigit` of one character. -/
structure LetterKinds where
  isUpper : Char → Bool
  isLower : Char → Bool
  isDigit : Char → Bool

/-- `_boundary`. -/
def boundary (K : LetterKinds) (stem : List Char) (i : ℕ) : Bool :=
  if i = 0 then false
  else
    let before := stem.getD (i - 1) ' '
    let char := stem.getD i ' '
    decide (before = '_') || (K.isUpper char && (K.isLower before || K.isDigit before))

/-- `_TYPE_FAMILIES`. -/
def typeFamilies : List (String × String) :=
  [("tinyint", "integer"), ("smallint", "integer"), ("int", "integer"), ("bigint", "integer"),
    ("integer", "integer"), ("decimal", "number"), ("numeric", "number"), ("money", "number"),
    ("smallmoney", "number"), ("float", "number"), ("real", "number"), ("char", "text"), ("varchar", "text"),
    ("nchar", "text"), ("nvarchar", "text"), ("text", "text"), ("ntext", "text"), ("date", "datetime"),
    ("datetime", "datetime"), ("datetime2", "datetime"), ("smalldatetime", "datetime"),
    ("datetimeoffset", "datetime"), ("time", "datetime")]

/-- `type_family`. -/
def typeFamily (C : CaseMaps) (dataType : String) : String :=
  let base := C.lower (String.ofList (strip ((splitText '(' dataType).headD "").toList))
  ((typeFamilies.find? fun p => p.1 = base).map (·.2)).getD base

/-! ## What is already written down -/

section Known

variable (N : NameReader) (S : SchemaConfig)

/-- `str(entry.get(k) or "").strip().lower()`. -/
def fieldText (text : String) : String := N.case.lower (String.ofList (strip text.toList))

/-- The pair of an entry, unless a field is empty. A `frozenset` of two is an unordered pair. -/
def entryPair (e : RelationshipEntry) : Option (Sym2 (String × String)) :=
  if "" ∈ [e.fromTable, e.fromColumn, e.toTable, e.toColumn].map (fieldText N) then none
  else some s((fieldText N e.fromTable, fieldText N e.fromColumn), (fieldText N e.toTable, fieldText N e.toColumn))

/-- `_known_pairs`: the pairs of the entries. -/
def knownPairs (existing : List RelationshipEntry) : List (Sym2 (String × String)) :=
  existing.filterMap (entryPair N)

/-- `_known_pairs`: the joins of `schema.yaml`. -/
def inlineJoins : List (Sym2 String × String) :=
  S.relationships.map fun r =>
    (s(N.case.lower (N.bareTableName r.fromTable), N.case.lower (N.bareTableName r.toTable)),
      N.case.lower r.joinSql)

/-- `[c.strip() for c in text.split(",")]`. -/
def columnTexts (text : String) : List String :=
  (splitText ',' text).map fun c => String.ofList (strip c.toList)

/-- **`_is_known`.** -/
def isKnown (pairs : List (Sym2 (String × String))) (inline : List (Sym2 String × String)) (p : Proposal) : Bool :=
  let ft := N.case.lower p.fromTable
  let tt := N.case.lower p.toTable
  let fc := N.case.lower p.fromColumn
  let tc := N.case.lower p.toColumn
  decide (s((ft, fc), (tt, tc)) ∈ pairs) ||
    inline.any fun join => decide (join.1 = s(ft, tt)) &&
      (columnTexts fc ++ columnTexts tc).all fun c => decide (c.toList <:+: join.2.toList)

end Known

/-! ## Declared keys -/

/-- An entry of `merged`: the first name of a key, the sources that declare it, its target. -/
structure DeclaredKey where
  name : String
  foundIn : List String
  target : LocatedTable

/-- What the loop over the declared keys of a table has found. -/
structure KeyScan where
  skipped : List (String × String) := []
  covered : List String := []
  /-- By columns, target and referenced columns. -/
  merged : OrderedDict (List String × String × List String) DeclaredKey := ∅

section Keys

variable (N : NameReader) (byLocation : OrderedDict (String × String) LocatedTable) (table : LocatedTable)

/-- One declared key in one source. -/
def readKey (source : String) (scan : KeyScan) (fk : ForeignKey) : KeyScan :=
  let label := table.key ++ "." ++ joinStrings ", " fk.columns ++ " -> " ++ fk.refLocation.2
  match byLocation.lookup fk.refLocation with
  | none =>
    { scan with skipped := scan.skipped ++
        [(label, "the referenced table is not in schema.yaml with columns")] }
  | some target =>
    let columns := fk.columns.map N.case.lower
    let refColumns := fk.refColumns.map N.case.lower
    if columns ⊆ table.columns ∧ refColumns ⊆ target.columns then
      let ident := (columns, target.key, refColumns)
      let declared : DeclaredKey := match scan.merged.lookup ident with
        | some found => { found with foundIn := found.foundIn ++ [source] }
        | none => ⟨fk.name, [source], target⟩
      { scan with covered := scan.covered ++ columns, merged := scan.merged.assign ident declared }
    else { scan with skipped := scan.skipped ++ [(label, "a key column is not listed in schema.yaml")] }

/-- The declared keys of a table, merged across its sources. -/
def scanKeys : KeyScan :=
  table.info.foldl (fun scan p => p.2.foreignKeys.foldl (readKey N byLocation table p.1) scan) {}

/-- The name of a column in the database's letter case. -/
def columnNamed (columns : List ColumnInfo) (low : String) : Except ProposalError String :=
  match columns.find? fun c => N.case.lower c.name = low with
  | some c => .ok c.name
  | none => .error .stopIteration

/-- The relationship of a declared key. -/
def declaredCandidate (multiSource : Bool)
    (e : DictEntry (List String × String × List String) DeclaredKey) : Except ProposalError Candidate := do
  let source := e.2.foundIn.headD ""
  let fromCols ← e.1.1.mapM (columnNamed N (((table.infoIn source).map (·.columns)).getD []))
  let ref := (e.2.target.infoIn source).getD e.2.target.first
  let toCols ← e.1.2.2.mapM (columnNamed N ref.columns)
  makeCandidate N table e.2.target fromCols toCols
    (String.ofList (strip ("declared foreign key " ++ e.2.name).toList)) "declared"
    (if multiSource then e.2.foundIn else [])

end Keys

/-! ## Links by name -/

/-- The answer of `_infer`. -/
inductive Guess where
  | noLink
  | dropped (why : String)
  | link (target : LocatedTable) (toColumn confidence : String)

section Names

variable (N : NameReader) (K : LetterKinds) (tables : List LocatedTable)

/-- `by_bare.get(bare, ())`. -/
def withBareName (bare : String) : List LocatedTable := tables.filter fun t => N.case.lower (t.bare N) = bare

/-- The tables whose name ends the stem at a word boundary, of the longest name. -/
def suffixPool (stem : String) : List LocatedTable :=
  let fits := ((tables.map fun t => N.case.lower (t.bare N)).eraseDups).filter fun bare =>
    decide (3 ≤ bare.length) && decide (bare.length < stem.length) &&
      decide (bare.toList <:+ (N.case.lower stem).toList) &&
      boundary K stem.toList (stem.length - bare.length)
  let longest := (fits.map String.length).foldr max 0
  (fits.filter fun bare => bare.length = longest).flatMap (withBareName N tables)

/-- The column of the target that a link by name points at, and whether it is a declared key. -/
def targetColumn (target : LocatedTable) (info : KeyedTable) : Option (String × Bool) :=
  match info.primaryKey with
  | key :: _ => some (key, true)
  | [] =>
    let names : OrderedDict String String := .ofPairs (info.columns.map fun c => (N.case.lower c.name, c.name))
    let bare := N.case.lower (target.bare N)
    (["id", bare ++ "id", bare ++ "_id"].findSome? names.lookup).map fun name => (name, false)

/-- The link to a table that was picked. -/
def linkTo (table target : LocatedTable) (dataType : String) (exactName : Bool) : Guess :=
  let source := (table.sources.find? (· ∈ target.sources)).getD ""
  let info := (target.infoIn source).getD target.first
  if 1 < info.primaryKey.length then .dropped (target.key ++ " has a composite primary key")
  else
    match targetColumn N target info with
    | none => .dropped (target.key ++ " has no primary key and no ID column")
    | some (toColumn, declaredKey) =>
      if N.case.lower toColumn ∉ target.columns then
        .dropped (target.key ++ "." ++ toColumn ++ " is not listed in schema.yaml")
      else
        let targetType := ((info.columns.find? fun c => c.name = toColumn).map (·.dataType)).getD ""
        if typeFamily N.case dataType ≠ typeFamily N.case targetType then
          .dropped ("types differ (" ++ dataType ++ " vs " ++ targetType ++ ")")
        else .link target toColumn (if exactName && declaredKey then "high" else "medium")

/-- `_infer`. -/
def infer (table : LocatedTable) (dataType stem : String) : Guess :=
  let exactPool := withBareName N tables (N.case.lower stem)
  let exactName := !exactPool.isEmpty
  let pool := if exactName then exactPool else suffixPool N K tables stem
  if pool.isEmpty then .noLink
  -- a table's own key is no link
  else if exactName && pool.any fun t => t.key = table.key then .noLink
  else
    let shared := pool.filter fun t => t.sources.any (· ∈ table.sources)
    let same := shared.filter fun t => t.location.1 = table.location.1
    match shared, same with
    | [], _ => .dropped "the matching table shares no data source with this one"
    | [target], _ => linkTo N table target dataType exactName
    | _, [target] => linkTo N table target dataType exactName
    | _, _ => .dropped ("several tables match: " ++ joinStrings ", " (sortedStrings (shared.map (·.key))))

end Names

/-! ## The loop -/

section Loop

variable (N : NameReader) (K : LetterKinds) (S : SchemaConfig) (sources : List String)
  (catalogues : String → KeyedCatalogue)

/-- One round of `_locate`. -/
def locateKeyed (key : String) (table : TableDefinition) : Option LocatedTable :=
  table.columns.bind fun columns =>
    let location := N.tableLocation key table.dbSchema "dbo"
    let info := sources.filterMap fun s => ((catalogues s).lookup location).map fun found => (s, found)
    if h : info = [] then none
    else some
      { key := key
        qualifier := joinStrings "." (N.effectiveQualifier key table.dbSchema)
        location := location
        columns := columns.keys.map N.case.lower
        info := info
        located := h }

/-- `_locate`. -/
def locatedTables : List LocatedTable :=
  S.tables.entries.filterMap fun e => locateKeyed N sources catalogues e.1 e.2

/-- The naming convention on one column. -/
def nameFinding (tables : List LocatedTable) (multiSource : Bool) (table : LocatedTable) (covered : List String)
    (column : ColumnInfo) : Except ProposalError (List Finding) :=
  let low := N.case.lower column.name
  if low ∉ table.columns ∨ low ∈ covered ∨ low = "id" then .ok []
  else
    match idStem column.name with
    | none => .ok []
    | some stem =>
      match infer N K tables table column.dataType stem with
      | .noLink => .ok []
      | .dropped why => .ok [.skip (table.key ++ "." ++ column.name) why]
      | .link target toColumn confidence =>
        (makeCandidate N table target [column.name] [toColumn]
          ("naming convention: " ++ column.name ++ " -> " ++ target.bare N ++ "." ++ toColumn)
          confidence (if multiSource then table.sources.filter (· ∈ target.sources) else [])).map fun c => [.add c false]

/-- What one table gives: its declared keys, then the columns that none of them explains. -/
def tableFindings (tables : List LocatedTable) (multiSource : Bool) (table : LocatedTable) :
    Except ProposalError (List Finding) := do
  let scan := scanKeys N (.ofPairs (tables.map fun t => (t.location, t))) table
  let declared ← scan.merged.entries.mapM (declaredCandidate N table multiSource)
  let named ← table.first.columns.mapM (nameFinding N K tables multiSource table scan.covered)
  return (scan.skipped.map fun s => .skip s.1 s.2) ++ (declared.map fun c => .add c true) ++ named.flatten

/-- All that the loop comes upon. -/
def findings : Except ProposalError (List Finding) :=
  let tables := locatedTables N S sources catalogues
  (tables.mapM (tableFindings N K tables (decide (1 < sources.length)))).map List.flatten

/-- `add`, and the record of what is dropped. -/
def applyFinding (known : Proposal → Bool) (result : ProposalSet) : Finding → ProposalSet
  | .skip what why => { result with skipped := result.skipped ++ [(what, why)] }
  | .add c declared =>
    if known (c.proposal N) then { result with alreadyKnown := result.alreadyKnown + 1 }
    else { result with
      proposals := result.proposals ++ [c.proposal N]
      declared := if declared then result.declared + 1 else result.declared
      inferred := if declared then result.inferred else result.inferred + 1 }

/-- **`propose_relationships`.** -/
def proposeRelationships (existing : List RelationshipEntry) : Except ProposalError ProposalSet :=
  (findings N K S sources catalogues).map
    (List.foldl (applyFinding N (isKnown N (knownPairs N existing) (inlineJoins N S))) {})

end Loop

/-! ## What the loop keeps -/

/-- The relationship of a finding. -/
def Finding.candidate : Finding → Option Candidate
  | .add c _ => some c
  | .skip _ _ => none

section Kept

variable {N : NameReader} {K : LetterKinds} {S : SchemaConfig} {sources : List String}
  {catalogues : String → KeyedCatalogue}

theorem foldl_applyFinding (known : Proposal → Bool) (found : List Finding) (result : ProposalSet) :
    (found.foldl (applyFinding N known) result).proposals = result.proposals ++
        (((found.filterMap Finding.candidate).map (Candidate.proposal N)).filter fun p => !known p) ∧
      (found.foldl (applyFinding N known) result).alreadyKnown = result.alreadyKnown +
        ((found.filterMap Finding.candidate).map (Candidate.proposal N)).countP known := by
  induction found generalizing result with
  | nil => simp
  | cons f rest ih =>
    rw [List.foldl_cons, (ih _).1, (ih _).2]
    cases f with
    | skip what why => exact ⟨rfl, rfl⟩
    | add c declared =>
      rw [List.filterMap_cons_some (f := Finding.candidate) rfl, List.map_cons, List.filter_cons, List.countP_cons,
        applyFinding]
      cases known (c.proposal N)
      · simp
      · simp
        omega

/-- **What is proposed and what is counted**: the proposals that are not known, and how many are. -/
theorem proposeRelationships_spec {existing : List RelationshipEntry} {result : ProposalSet}
    (h : proposeRelationships N K S sources catalogues existing = .ok result) :
    ∃ found, findings N K S sources catalogues = .ok found ∧
      result.proposals = ((found.filterMap Finding.candidate).map (Candidate.proposal N)).filter
        (fun p => !isKnown N (knownPairs N existing) (inlineJoins N S) p) ∧
      result.alreadyKnown = ((found.filterMap Finding.candidate).map (Candidate.proposal N)).countP
        (isKnown N (knownPairs N existing) (inlineJoins N S)) := by
  unfold proposeRelationships at h
  cases hfound : findings N K S sources catalogues with
  | error e =>
    rw [hfound] at h
    cases h
  | ok found =>
    rw [hfound] at h
    cases h
    obtain ⟨hproposals, hcount⟩ := foldl_applyFinding (N := N)
      (isKnown N (knownPairs N existing) (inlineJoins N S)) found {}
    exact ⟨found, rfl, by rw [hproposals, List.nil_append], by rw [hcount, Nat.zero_add]⟩

end Kept

end LocalSqlAgent
