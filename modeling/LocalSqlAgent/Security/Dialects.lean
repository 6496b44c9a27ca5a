/-! # Dialect profiles

The part of `security.dialects.DIALECT_PROFILES` the guard consults: catalogue names, remote-access
functions and whether `N'...'` is a literal. -/

namespace LocalSqlAgent

/-- The dialects a deployment may target. -/
inductive Dialect where
  | tsql
  | postgres
  | mysql
  | sqlite
  deriving DecidableEq, Repr

/-- `DialectProfile`. -/
structure DialectProfile where
  /-- The sqlglot key. -/
  name : String
  /-- Upper-cased catalogue schema or table names. -/
  systemSchemas : List String
  /-- Upper-cased name prefixes of the catalogue. -/
  systemNamePrefixes : List String
  /-- Upper-cased remote or file access functions. -/
  extraDangerousFunctions : List String
  /-- Whether `N'...'` is accepted. -/
  supportsNationalLiteral : Bool
  deriving DecidableEq, Repr

/-- `DIALECT_PROFILES[dialect]`. -/
def Dialect.profile : Dialect → DialectProfile
  | .tsql =>
    { name := "tsql"
      systemSchemas := ["INFORMATION_SCHEMA", "SYS"]
      systemNamePrefixes := []
      extraDangerousFunctions := []
      supportsNationalLiteral := true }
  | .postgres =>
    { name := "postgres"
      systemSchemas := ["INFORMATION_SCHEMA", "PG_CATALOG"]
      systemNamePrefixes := ["PG_"]
      extraDangerousFunctions := ["DBLINK", "DBLINK_CONNECT", "DBLINK_EXEC"]
      supportsNationalLiteral := false }
  | .mysql =>
    { name := "mysql"
      systemSchemas := ["INFORMATION_SCHEMA", "MYSQL", "PERFORMANCE_SCHEMA", "SYS"]
      systemNamePrefixes := []
      extraDangerousFunctions := ["LOAD_FILE"]
      supportsNationalLiteral := true }
  | .sqlite =>
    { name := "sqlite"
      systemSchemas := ["SQLITE_MASTER", "SQLITE_TEMP_MASTER", "SQLITE_SEQUENCE"]
      systemNamePrefixes := ["SQLITE_"]
      extraDangerousFunctions := []
      supportsNationalLiteral := false }

/-- No profile has an empty catalogue list, the condition `require_dialect_supported` starts
under. -/
theorem Dialect.systemSchemas_ne_nil (d : Dialect) : d.profile.systemSchemas ≠ [] := by
  cases d <;> decide

end LocalSqlAgent
