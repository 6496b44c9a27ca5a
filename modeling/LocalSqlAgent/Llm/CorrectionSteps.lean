import Mathlib.Data.List.Infix
import Mathlib.Logic.Function.Basic
import LocalSqlAgent.Lib.EventLog
import LocalSqlAgent.Lib.PyText
import LocalSqlAgent.Database.Routing
import LocalSqlAgent.Security.Dialects
import LocalSqlAgent.Security.JoinOnly
import LocalSqlAgent.Security.Rejection

/-! # The steps of a correction loop

The turn engine and the stateless agent share these steps: one model call with one retry on another
data source (`llm.source_routing`), the guard pipeline of a candidate, the spelling fix of
`retrieval.filter_spelling` and the one round that replaces a filter value the data does not have.
Every call to the model, to `validate_sql` and to the database is an event; its answer is a function
of the events before it. -/

namespace LocalSqlAgent

/-! ## Exceptions -/

/-- An exception, as far as the handlers of the loops tell exceptions apart. -/
inductive PyError where
  /-- A `SqlGuardRejection`, which is a `ValueError`. -/
  | guard (r : Rejection)
  /-- Any other `ValueError`. -/
  | valueError (message : String)
  /-- A `RuntimeError`. -/
  | runtimeError (message : String)
  /-- A `TimeoutError`. -/
  | timeoutError (message : String)
  /-- Anything else. -/
  | other (message : String)
  deriving DecidableEq

namespace PyError

/-- `str(exc)`. -/
def message : PyError → String
  | guard r => r.message
  | valueError m | runtimeError m | timeoutError m | other m => m

/-- `isinstance(exc, PolicyRejection)`. -/
def isPolicy : PyError → Bool
  | guard r => r.kind = .policy
  | _ => false

/-- `isinstance(exc, ValueError)`. -/
def isValueError : PyError → Bool
  | guard _ | valueError _ => true
  | _ => false

/-- `isinstance(exc, RuntimeError)`. -/
def isRuntimeError : PyError → Bool
  | runtimeError _ => true
  | _ => false

/-- `_guard_reason_subject`. -/
def reasonSubject : PyError → Option Reason × Option String
  | guard r => (some r.reason, r.subject)
  | _ => (none, none)

end PyError

/-- What the model router raises: the exception and its `__cause__`. -/
structure RouterError where
  /-- The exception. -/
  error : PyError
  /-- `exc.__cause__`. -/
  cause : Option PyError
  deriving DecidableEq

/-- `exc.__cause__ or exc`. -/
def RouterError.unwrapped (e : RouterError) : PyError := e.cause.getD e.error

/-- `is_out_of_scope_failure`. -/
def RouterError.isOutOfScope (e : RouterError) : Bool :=
  e.unwrapped.isValueError && e.unwrapped.message = "OUT_OF_SCOPE"

/-! ## Events -/

/-- Why the model is called: a round of the loop, its retry on the next data source, or the one round
of the filter value check. -/
inductive CallSite where
  | attempt
  | fallback
  | valueRound
  deriving DecidableEq

/-- What the guard is asked about: a candidate of the loop, the statement of the filter value round,
or a text the spelling fix rewrote. -/
inductive GuardSite where
  | candidate
  | valueRound
  | respelling
  deriving DecidableEq

/-- A call to the outside. -/
inductive LoopEvent where
  /-- `LLMRouter.generate_for_task`. -/
  | generated (site : CallSite)
  /-- `validate_sql`: the dialect, the denied columns and the text it was given, and what it raised. -/
  | validated (site : GuardSite) (dialect : Dialect) (denied : Option (List String)) (sql : String)
      (raised : Option PyError)
  /-- `execute_query`. -/
  | executed (sql : String)
  deriving DecidableEq

/-! ## The environment -/

/-- A model answer. -/
structure Completion where
  /-- `route_result.text or ""`. -/
  text : String
  /-- `finish_reason_from_meta`. -/
  finishReason : String

/-- A query result. -/
structure DataFrame where
  /-- The column names. -/
  columns : List String
  /-- The rows. -/
  rows : List (List String)

/-- **Everything outside the loops**: the model, the guard, the vocabulary caches and the database.
Each may answer differently at every call. -/
structure LoopWorld where
  /-- `LLMRouter.generate_for_task`. -/
  generate : List LoopEvent → Except RouterError Completion
  /-- `clean_sql`. -/
  cleanSql : String → Except PyError String
  /-- `validate_sql`, under the denied columns and for the dialect. -/
  validateSql : List LoopEvent → Dialect → Option (List String) → String → Except PyError Unit
  /-- `ensure_top`. -/
  ensureTop : String → Nat → Except PyError String
  /-- `transpile_sql` from T-SQL. -/
  transpileSql : Dialect → String → Except PyError String
  /-- `extract_touched_tables`. -/
  touchedTables : Dialect → String → List String
  /-- `fix_filter_spelling`: the rewritten text when a literal was rewritten. -/
  fixFilterSpelling : List LoopEvent → Option (List String) → Dialect → String → Option String
  /-- `check_filter_values(...).unknown`. -/
  unknownValues : List LoopEvent → Option (List String) → Dialect → String → List String
  /-- `execute_query`. -/
  execute : List LoopEvent → String → Except PyError DataFrame
  /-- `repr` of a string. -/
  repr : String → String
  /-- `str.lower`. -/
  lower : String → String

/-- The settings the loops read, and what the request brings. -/
structure LoopSettings where
  /-- `max_corrections`. -/
  maxCorrections : Int
  /-- `settings.default_top_n`. -/
  defaultTopN : Nat
  /-- `settings.sql_dialect`. -/
  sqlDialect : Dialect
  /-- `settings.filter_value_spelling`. -/
  filterValueSpelling : Bool
  /-- `settings.filter_value_check`. -/
  filterValueCheck : Bool
  /-- The caller's `denied_columns`. -/
  deniedColumns : Option (List String)

/-! ## Source routing -/

/-- `SourceRouting`: the candidate sources, the current one and the one a retry left. -/
structure SourceRouting where
  /-- `selection.candidates`. -/
  candidates : List String
  /-- `current`. -/
  current : String
  /-- `fallback_from`. -/
  fallbackFrom : Option String

namespace SourceRouting

/-- `SourceSelection.after`. -/
def after (r : SourceRouting) (source : String) : Option String :=
  if source ∈ r.candidates then r.candidates[r.candidates.idxOf source + 1]? else none

/-- `can_fall_back`. -/
def canFallBack (r : SourceRouting) : Bool :=
  r.fallbackFrom.isNone && (r.after r.current).isSome

/-- `fall_back`. -/
def fallBack (r : SourceRouting) : SourceRouting :=
  match r.after r.current with
  | some following => { r with current := following, fallbackFrom := some r.current }
  | none => r

/-- A retry is taken once. -/
theorem canFallBack_fallBack {r : SourceRouting} (h : r.canFallBack = true) :
    r.fallBack.canFallBack = false := by
  simp only [canFallBack, Bool.and_eq_true, Option.isSome_iff_exists] at h
  obtain ⟨-, following, hafter⟩ := h
  simp [canFallBack, fallBack, hafter]

end SourceRouting

/-! ## The steps -/

/-- A program of the loops. -/
abbrev LoopM : Type → Type := LogM LoopEvent PyError

section Steps

variable (W : LoopWorld) (S : LoopSettings)

/-- One model call. -/
def generateForTask (site : CallSite) : LoopM (Except RouterError Completion) := do
  let answer ← LogM.observe W.generate
  LogM.record (.generated site)
  return answer

/-- **`generate_with_source_fallback`**: one call, and one more on the next source when the first is
out of scope and a retry is left. -/
def generateWithSourceFallback (routing : Option SourceRouting) :
    LoopM (Except RouterError Completion × Option SourceRouting) := do
  match ← generateForTask W .attempt with
  | .ok completion => return (.ok completion, routing)
  | .error e =>
    match routing with
    | none => return (.error e, none)
    | some r =>
      if e.isOutOfScope && r.canFallBack then
        let answer ← generateForTask W .fallback
        return (answer, some r.fallBack)
      else return (.error e, some r)

/-- `validate_sql` under the caller's denied columns. -/
def validateSql (site : GuardSite) (dialect : Dialect) (sql : String) : LoopM Unit := do
  let verdict ← LogM.observe fun log => W.validateSql log dialect S.deniedColumns sql
  match verdict with
  | .ok () => LogM.record (.validated site dialect S.deniedColumns sql none)
  | .error e =>
    LogM.record (.validated site dialect S.deniedColumns sql (some e))
    throw e

/-- The rejection of a transpilation that changed the tables read. -/
def tablesChanged (source transpiled : List String) : PyError :=
  .guard (.correctable ("transpile_and_revalidate: transpiling from " ++ Dialect.tsql.profile.name ++
    " to " ++ S.sqlDialect.profile.name ++ " changed the set of tables this query touches (" ++
    listRepr W.repr (sortedStrings source.dedup) ++ " -> " ++
    listRepr W.repr (sortedStrings transpiled.dedup) ++ ") — refusing to execute SQL whose " ++
    "meaning may have changed under transpilation") .other)

/-- **`transpile_and_revalidate`** to the deployment's dialect; T-SQL passes through. -/
def transpileAndRevalidate (site : GuardSite) (sql : String) : LoopM String := do
  if S.sqlDialect = .tsql then return sql
  else
    let transpiled ← LogM.fromExcept (W.transpileSql S.sqlDialect sql)
    validateSql W S site S.sqlDialect transpiled
    let source := W.touchedTables .tsql sql
    let target := W.touchedTables S.sqlDialect transpiled
    if source ⊆ target ∧ target ⊆ source then return transpiled
    else throw (tablesChanged W S source target)

/-- The guard pipeline from a cleaned text on: the statement to run and the cap `ensure_top`
injected. -/
def validateAndCap (site : GuardSite) (cleaned : String) : LoopM (String × Option Nat) := do
  validateSql W S site .tsql cleaned
  let capped ← LogM.fromExcept (W.ensureTop cleaned S.defaultTopN)
  let final ← transpileAndRevalidate W S site capped
  return (final, if capped = cleaned then none else some S.defaultTopN)

/-- `_clean_validate_cap`. -/
def cleanValidateCap (site : GuardSite) (raw : String) : LoopM (String × Option Nat) := do
  let cleaned ← LogM.fromExcept (W.cleanSql raw)
  validateAndCap W S site cleaned

/-- **`respell_filters`**, when the setting is on: the rewritten text if the guard accepts it, else
the text itself. -/
def respellFilters (sql : String) : LoopM String := do
  if S.filterValueSpelling then
    let fix ← LogM.observe fun log => W.fixFilterSpelling log S.deniedColumns S.sqlDialect sql
    match fix with
    | none => return sql
    | some rewritten =>
      match ← LogM.attempt (validateSql W S .respelling S.sqlDialect rewritten) with
      | .ok () => return rewritten
      | .error _ => return sql
  else return sql

/-- `execute_query`. -/
def executeQuery (sql : String) : LoopM DataFrame := do
  let answer ← LogM.observe fun log => W.execute log sql
  LogM.record (.executed sql)
  LogM.fromExcept answer

/-- The statement of a filter value round that ran. -/
structure Corrected where
  /-- Its rows. -/
  data : DataFrame
  /-- The statement. -/
  sql : String
  /-- The model's text. -/
  raw : String
  /-- The cap `ensure_top` injected into it. -/
  injectedTop : Option Nat

/-- `_ValueRound`: whether the model was asked, and the corrected statement when it ran. -/
structure ValueRound where
  /-- `prompt is not None`. -/
  prompted : Bool
  /-- `executed`. -/
  executed : Option Corrected

/-- The body of the `try` of `_filter_value_round`. The two loops differ in what they ask of the
corrected statement beyond known values and in how they fetch its rows. -/
def correctedStatement (acceptable : String → Except PyError Unit) (fetch : String → LoopM DataFrame) :
    LoopM Corrected := do
  match ← generateForTask W .valueRound with
  | .error e => throw e.error
  | .ok completion =>
    let (checked, injectedTop) ← cleanValidateCap W S .valueRound completion.text
    let sql ← respellFilters W S checked
    let unknown ← LogM.observe fun log => W.unknownValues log S.deniedColumns S.sqlDialect sql
    if unknown ≠ [] then
      throw (.valueError "the corrected statement keeps a value that does not exist")
    else
      LogM.fromExcept (acceptable sql)
      let data ← fetch sql
      return { data, sql, raw := completion.text, injectedTop }

/-- **`_filter_value_round`**: at most one model call, only when a literal is unknown and corrections
are allowed; whatever goes wrong, there is no corrected statement. -/
def filterValueRound (acceptable : String → Except PyError Unit) (fetch : String → LoopM DataFrame)
    (sql : String) : LoopM ValueRound := do
  let unknown ← LogM.observe fun log => W.unknownValues log S.deniedColumns S.sqlDialect sql
  if unknown = [] ∨ S.maxCorrections ≤ 0 then return { prompted := false, executed := none }
  else
    match ← LogM.attempt (correctedStatement W S acceptable fetch) with
    | .ok corrected => return { prompted := true, executed := some corrected }
    | .error _ => return { prompted := true, executed := none }

/-- What both loops remember from round to round. -/
structure LoopState where
  /-- The request's data-source routing. -/
  routing : Option SourceRouting
  /-- `value_checked`. -/
  valueChecked : Bool
  /-- `extra_round`. -/
  extraRound : Nat

/-- The filter value check of a round, once per request and only when the setting is on. -/
def filterValueCheck (acceptable : String → Except PyError Unit) (fetch : String → LoopM DataFrame)
    (s : LoopState) (sql : String) : LoopM (LoopState × Option Corrected) := do
  if S.filterValueCheck ∧ s.valueChecked = false then
    let round ← filterValueRound W S acceptable fetch sql
    return ({ s with
      valueChecked := true
      extraRound := if round.prompted then 1 else s.extraRound }, round.executed)
  else return (s, none)

end Steps

end LocalSqlAgent
