import LocalSqlAgent.PromptEngine.Builder
import LocalSqlAgent.Retrieval.DimensionVocabulary

/-! # Retrieving the context of a question

`retrieval.context_retriever`: the sub-retrievers read the question and the configuration; only the search
of the vocabulary brings warehouse text into the context.

* **`contextOf`**: the context of a question for what the search of the vocabulary found.
* **`retrieve`**: that search, over the entities no configured filter settles.
* **`frame_contextOf`**: what was found enters a context through its filters and its resolved values, as
  far as a prompt is built from it. -/

namespace LocalSqlAgent

/-- The sub-retrievers of `ContextRetriever`, none of which reads the warehouse. -/
structure Retrievers where
  /-- `EntityRetriever.retrieve`. -/
  entities : String → List String
  /-- `FactRetriever.retrieve`. -/
  facts : String → List String
  /-- `prune_selection`. -/
  pruneSelection : String → List String → List String → List String × List String
  /-- `expand_join_paths`. -/
  expandJoinPaths : List String → List String
  /-- `RelationshipRetriever.retrieve`. -/
  relationships : List String → List String
  /-- `RuleRetriever.retrieve`. -/
  rules : String → List String
  /-- `ExampleRetriever.retrieve`. -/
  examples : String → List FewShotExample
  /-- `ValueRetriever.retrieve`. -/
  values : String → List (String × String)
  /-- `resolve_table_ref`. -/
  resolveTableRef : String → List String
  /-- The display name of the entity of a table. -/
  label : String → Option String

/-- `RetrievalContext` with what the engine reads of it besides the builder. -/
structure RetrievedContext extends RetrievalContext where
  valueClarifications : List Clarification
  warnings : List String
  tokenTierFilters : List (String × List String)

/-- `d[key] = value`. -/
def setKey (key value : String) : List (String × String) → List (String × String)
  | [] => [(key, value)]
  | entry :: rest => if entry.1 = key then (key, value) :: rest else entry :: setKey key value rest

/-- `{**filters, **updates}`. -/
def mergeFilters (filters updates : List (String × String)) : List (String × String) :=
  updates.foldl (fun merged entry => setKey entry.1 entry.2 merged) filters

/-- The warning for a table whose vocabulary was never cached. -/
def vocabularyUnavailable : Option String → String
  | some label => "فهرست مقادیر «" ++ label ++ "» فعلاً در دسترس نیست؛ اگر در پرسش مقداری از آن را نام " ++
      "برده‌اید، ممکن است پاسخ بر اساس آن فیلتر نشده باشد."
  | none => "فهرست مقادیر یکی از ابعاد این پرسش فعلاً در دسترس نیست؛ اگر در پرسش مقداری از آن را نام " ++
      "برده‌اید، ممکن است پاسخ بر اساس آن فیلتر نشده باشد."

namespace Retrievers

variable (R : Retrievers)

/-- The entities and the facts the evidence supports. -/
def selection (question : String) : List String × List String :=
  R.pruneSelection question (R.entities question) (R.facts question)

/-- `db_candidate_tables`: the entities no configured filter settles. -/
def dbCandidateTables (question : String) : List String :=
  let filters := R.values question
  let staticTables := filters.flatMap fun entry => R.resolveTableRef entry.1
  (R.selection question).1.filter fun table =>
    decide (table ∉ filters.map (·.1) ∧ table ∉ staticTables)

/-- The context of a question, for what was found in the vocabulary. -/
def contextOf (question : String) (found : VocabularyMatchResult) : RetrievedContext :=
  let (entities, facts) := R.selection question
  let selected := (entities ++ facts).eraseDups
  let joinTables := R.expandJoinPaths selected
  { entities := entities
    facts := facts
    joinTables := joinTables
    relationships := R.relationships (selected ++ joinTables)
    businessRules := R.rules question
    examples := R.examples question
    filters := mergeFilters (R.values question) found.filters
    resolvedValues := found.filters.map fun entry => (entry.1, [entry.2])
    valueClarifications := found.clarifications
    warnings := (found.unavailableTables.filter (· ∈ entities)).map fun table => vocabularyUnavailable (R.label table)
    tokenTierFilters := found.tokenTierFilters }

/-- What the search of the vocabulary finds for a question; nothing is searched without a candidate. -/
def searchVocabulary (E : GuardEnv) (V : VocabularyConfig) (cache : VocabularyCache) (entries : List String)
    (question : String) : Except String VocabularyMatchResult :=
  if (R.dbCandidateTables question).isEmpty then .ok {}
  else matchQuestionAgainstVocabulary E V cache entries (V.normalize question) (R.dbCandidateTables question)

/-- **`ContextRetriever.retrieve`.** -/
def retrieve (E : GuardEnv) (V : VocabularyConfig) (cache : VocabularyCache) (entries : List String)
    (question : String) : Except String RetrievedContext :=
  (R.searchVocabulary E V cache entries question).map (R.contextOf question)

variable {R}

/-- **What the builder reads of a context** is what it reads when nothing is found, but for the filters and
the resolved values. -/
theorem frame_contextOf (question : String) (found : VocabularyMatchResult) :
    (R.contextOf question found).toRetrievalContext =
      { (R.contextOf question {}).toRetrievalContext with
        filters := mergeFilters (R.values question) found.filters
        resolvedValues := found.filters.map fun entry => (entry.1, [entry.2]) } := rfl

theorem retrieve_ok {E : GuardEnv} {V : VocabularyConfig} {cache : VocabularyCache} {entries : List String}
    {question : String} {context : RetrievedContext}
    (h : R.retrieve E V cache entries question = .ok context) :
    ∃ found, R.searchVocabulary E V cache entries question = .ok found ∧ context = R.contextOf question found := by
  unfold retrieve at h
  cases hfound : R.searchVocabulary E V cache entries question with
  | error message =>
    rw [hfound] at h
    cases h
  | ok found =>
    rw [hfound] at h
    cases h
    exact ⟨found, rfl, rfl⟩

end Retrievers

end LocalSqlAgent
