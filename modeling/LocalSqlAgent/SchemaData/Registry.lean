import LocalSqlAgent.Lib.OrderedDict
import LocalSqlAgent.Lib.PyText
import LocalSqlAgent.Database.Routing
import LocalSqlAgent.Security.TableAllowlist

/-! # The schema file and the catalogue

`schema_data.registry` and `database.catalogue`: what `schema.yaml` says about the tables, what a data
source's catalogue says about them, and where the catalogue lists the table a key names.

* **`NameReader`**: the parser of table keys and `str.lower`, both given.
* **`SchemaConfig`**: the tables of the file, `SchemaConfig.Valid` what the validators let through.
* **`tableLocation`**: schema and name of a table in lower case, by the last part of its qualifier. -/

namespace LocalSqlAgent

/-- `TableRef`: a table key, parsed. -/
structure TableRef where
  /-- The leading parts, empty for a bare key. -/
  qualifier : List String
  /-- The bare table name. -/
  name : String
  deriving DecidableEq

/-- **What reads names**: the parser of table keys and the case mappings. -/
structure NameReader where
  /-- `split_table_key`. -/
  splitTableKey : String → TableRef
  /-- `str.lower` and its relatives. -/
  case : CaseMaps

namespace NameReader

variable (N : NameReader)

/-- `bare_table_name`. -/
def bareTableName (key : String) : String := (N.splitTableKey key).name

/-- `effective_qualifier`: the key's own parts, else those of `db_schema`. -/
def effectiveQualifier (key dbSchema : String) : List String :=
  if (N.splitTableKey key).qualifier ≠ [] then (N.splitTableKey key).qualifier
  else if dbSchema ≠ "" then splitText '.' dbSchema
  else []

/-- `table_location`. -/
def tableLocation (key dbSchema default : String) : String × String :=
  (N.case.lower ((N.effectiveQualifier key dbSchema).getLast?.getD default),
    N.case.lower (N.bareTableName key))

end NameReader

/-! ## The schema file -/

/-- `TableDefinition`, as far as the structural tools read it. -/
structure TableDefinition where
  /-- Column names with their descriptions; `none` for a table that is described only. -/
  columns : Option (OrderedDict String String) := none
  /-- The recorded types. -/
  columnTypes : OrderedDict String String := ∅
  dbSchema : String := ""
  /-- The data sources named; empty for the default one. -/
  datasource : List String := []
  resolvableColumns : List String := []
  prefetchableColumns : List String := []

/-- The columns a table lists. -/
def TableDefinition.columnNames (t : TableDefinition) : List String := (t.columns.getD ∅).keys

/-- `set(resolvable_columns) | set(prefetchable_columns)`. -/
def TableDefinition.flagged (t : TableDefinition) : List String :=
  t.resolvableColumns ++ t.prefetchableColumns

/-- `RelationshipDefinition`. -/
structure RelationshipDefinition where
  fromTable : String
  toTable : String
  joinSql : String

/-- **`SchemaConfig`**: the tables of `schema.yaml` in file order, and the relationships. -/
structure SchemaConfig where
  tables : OrderedDict String TableDefinition
  relationships : List RelationshipDefinition := []

/-- What the validators check of one table. -/
structure TableDefinition.Valid (N : NameReader) (key : String) (t : TableDefinition) : Prop where
  /-- Types are recorded for listed columns only. -/
  types : ∀ c ∈ t.columnTypes.keys, c ∈ t.columnNames
  /-- `db_schema` has one to three parts, none of them blank. -/
  dbSchema : t.dbSchema ≠ "" →
    (∀ part ∈ splitText '.' t.dbSchema, strip part.toList ≠ []) ∧ (splitText '.' t.dbSchema).length ≤ 3
  /-- Flagged columns are listed. -/
  flagged : ∀ c ∈ t.flagged, c ∈ t.columnNames
  /-- A table with flagged columns has a qualifier. -/
  qualified : t.flagged ≠ [] → N.effectiveQualifier key t.dbSchema ≠ []
  /-- A key's own qualifier and `db_schema` name the same. -/
  agrees : (N.splitTableKey key).qualifier ≠ [] → t.dbSchema ≠ "" →
    (N.splitTableKey key).qualifier.map N.case.lower = (splitText '.' t.dbSchema).map N.case.lower

/-- The table a key names, up to letter case. -/
def NameReader.identity (N : NameReader) (key dbSchema : String) : List String × String :=
  ((N.effectiveQualifier key dbSchema).map N.case.lower, N.case.lower (N.bareTableName key))

/-- What `SchemaConfig`'s validators let through. -/
structure SchemaConfig.Valid (N : NameReader) (S : SchemaConfig) : Prop where
  tables : ∀ e ∈ S.tables.entries, e.2.Valid N e.1
  /-- No two keys name the same table. -/
  distinct : S.tables.entries.Pairwise fun e e' =>
    N.identity e.1 e.2.dbSchema ≠ N.identity e'.1 e'.2.dbSchema

namespace SchemaConfig

variable (N : NameReader) (S : SchemaConfig)

/-- `get_table_columns`: the queryable tables, those that list a column. -/
def tableColumns : List (String × TableDefinition) :=
  S.tables.entries.filterMap fun e => if e.2.columnNames = [] then none else some (e.1, e.2)

/-- `get_table_schema_qualifiers().get(key, "")`: the whole qualifier, its parts joined by dots. -/
def tableSchema (key : String) : String :=
  match S.tables.lookup key with
  | some t => joinStrings "." (N.effectiveQualifier key t.dbSchema)
  | none => ""

variable {S}

theorem mem_tableColumns {key : String} {t : TableDefinition} :
    (key, t) ∈ S.tableColumns ↔ S.tables.lookup key = some t ∧ t.columnNames ≠ [] := by
  unfold tableColumns
  rw [List.mem_filterMap]
  constructor
  · rintro ⟨⟨k, t'⟩, hmem, hsome⟩
    by_cases hne : t'.columnNames = []
    · rw [if_pos hne] at hsome
      cases hsome
    · rw [if_neg hne] at hsome
      cases hsome
      exact ⟨AList.mem_lookup_iff.mpr hmem, hne⟩
  · rintro ⟨hmem, hne⟩
    exact ⟨⟨key, t⟩, AList.mem_lookup_iff.mp hmem, if_neg hne⟩

end SchemaConfig

/-! ## The catalogue -/

/-- `ColumnInfo`. -/
structure ColumnInfo where
  name : String
  dataType : String
  nullable : Bool
  deriving DecidableEq

/-- `TableInfo`: a table or a view, its names in the database's letter case. -/
structure TableInfo where
  schema : String
  name : String
  isView : Bool
  columns : List ColumnInfo
  deriving DecidableEq

/-- `TableInfo.location`. -/
def TableInfo.location (C : CaseMaps) (info : TableInfo) : String × String :=
  (C.lower info.schema, C.lower info.name)

/-- `SourceTables`: one source's catalogue, by location. -/
abbrev SourceTables := OrderedDict (String × String) TableInfo

/-- `read_catalogue` on a source that holds these relations. -/
def readCatalogue (C : CaseMaps) (relations : List TableInfo) : SourceTables :=
  OrderedDict.ofPairs (relations.map fun info => (info.location C, info))

end LocalSqlAgent
