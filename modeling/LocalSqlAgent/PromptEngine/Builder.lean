import LocalSqlAgent.Database.Routing
import LocalSqlAgent.Lib.Template
import LocalSqlAgent.PromptEngine.Untrusted

/-! # Building the prompt

`prompt_engine.builder`: a prompt is built on one of two paths. Below the token budget it is a static
prefix, which holds the whole knowledge base, and a suffix for the request; above it, one template around
what was retrieved for the question. `llm.router.build_prompt_segments` takes the same decision and keeps
the prefix and the suffix apart. -/

namespace LocalSqlAgent

/-! ## The templates -/

/-- The slots of the templates. -/
inductive PromptSlot where
  | systemPrompt
  | businessRules
  | metrics
  | schema
  | relationships
  | examples
  | filters
  | resolvedValues
  | sessionContext
  | accessNotes
  | question
  deriving DecidableEq

/-- A section's heading. -/
def heading (title : String) : String :=
  "==================================================\n" ++ title ++
    "\n==================================================\n\n"

/-- The note below the filters. -/
def filterNote : String :=
  "\n\nIMPORTANT:\n\n" ++
  "The detected filters are canonical business values.\n\n" ++
  "When generating SQL:\n\n" ++
  "- Use filter values exactly as provided.\n" ++
  "- Do not rewrite filter values.\n" ++
  "- Do not shorten filter values.\n" ++
  "- Do not replace filter values with aliases.\n" ++
  "- If Ring = \"تالار پتروشیمی\" then SQL must use:\n\n" ++
  "r.Name = N'تالار پتروشیمی'\n\n" ++
  "NOT:\n\n" ++
  "r.Name = N'پتروشیمی'\n\n"

open Piece PromptSlot in
/-- `STATIC_PREFIX_TEMPLATE`. -/
def staticPrefixTemplate : Template PromptSlot :=
  [text "\n", slot systemPrompt,
    text ("\n\n" ++ heading "BUSINESS RULES"), slot businessRules,
    text ("\n\n" ++ heading "METRICS"), slot metrics,
    text ("\n\n" ++ heading "DATABASE SCHEMA"), slot schema,
    text ("\n\n" ++ heading "RELATIONSHIPS"), slot relationships,
    text ("\n\n" ++ heading "EXAMPLES"), slot examples, text "\n"]

open Piece PromptSlot in
/-- `SUFFIX_TEMPLATE`. -/
def suffixTemplate : Template PromptSlot :=
  [text ("\n" ++ heading "DETECTED FILTERS"), slot filters,
    text (filterNote ++ heading "RESOLVED WAREHOUSE VALUES"), slot resolvedValues,
    text ("\n\n" ++ heading "SESSION CONTEXT"), slot sessionContext,
    text "\n", slot accessNotes,
    text ("\n" ++ heading "USER QUESTION"), slot question, text "\n\nSQL:\n"]

open Piece PromptSlot in
/-- `PROMPT_TEMPLATE`. -/
def promptTemplate : Template PromptSlot :=
  [text "\n", slot systemPrompt,
    text ("\n\n" ++ heading "BUSINESS RULES"), slot businessRules,
    text ("\n\n" ++ heading "DATABASE SCHEMA"), slot schema,
    text ("\n\n" ++ heading "RELATIONSHIPS"), slot relationships,
    text ("\n\n" ++ heading "DETECTED FILTERS"), slot filters,
    text (filterNote ++ heading "RESOLVED WAREHOUSE VALUES"), slot resolvedValues,
    text "\n", slot accessNotes,
    text ("\n" ++ heading "EXAMPLES"), slot examples,
    text ("\n\n" ++ heading "USER QUESTION"), slot question, text "\n\nSQL:\n"]

/-! ## What a prompt is built from -/

/-- A few-shot example. -/
structure FewShotExample where
  question : String
  sql : String

/-- `RetrievalContext`, as far as the builder reads it. -/
structure RetrievalContext where
  entities : List String
  facts : List String
  joinTables : List String
  relationships : List String
  businessRules : List String
  examples : List FewShotExample
  /-- `filters`, its values as `str` renders them. -/
  filters : List (String × String)
  /-- `resolved_values`; empty for `None`. -/
  resolvedValues : List (String × List String)

/-- `RetrievalContext.selected_tables`. -/
def RetrievalContext.selectedTables (context : RetrievalContext) : List String :=
  (context.entities ++ context.facts ++ context.joinTables).eraseDups

/-- A metric. -/
structure Metric where
  key : String
  expression : String
  aliases : List String

/-- **What a deployment configures**: its knowledge, its schema and its data sources. -/
structure PromptKnowledge where
  /-- The stripped `BUSINESS_RULES` texts. -/
  businessRules : List String
  metrics : List Metric
  examples : List FewShotExample
  /-- The keys of `TABLE_COLUMNS`. -/
  tables : List String
  /-- `SchemaRegistry.build_schema_context`; no tables stand for all of them. -/
  buildSchemaContext : List String → Option String → String
  /-- `SchemaRegistry.tables_for_source`. -/
  tablesForSource : String → List String
  /-- `SchemaRegistry.get_relationships`. -/
  getRelationships : List String → List String
  /-- Whether every table of the example lives in the source. -/
  runsOnSource : FewShotExample → String → Bool
  /-- `datasource_names()`. -/
  datasourceNames : List String
  /-- `prompt_retrieval_token_budget`. -/
  retrievalTokenBudget : ℤ

/-- The `ValueError` of `scoped_source`. -/
structure UnknownDatasource where
  source : String
  configured : List String

/-! ## The parts of the request -/

/-- `_render_access_notes`. -/
def renderAccessNotes (accessNotes : String) : String :=
  if accessNotes = "" then "" else "\n" ++ heading "COLUMN ACCESS" ++ accessNotes ++ "\n"

/-- `_render_resolved_values`. -/
def renderResolvedValues (resolvedValues : List (String × List String)) : String :=
  if resolvedValues.isEmpty then ""
  else
    let lines := resolvedValues.map fun entry => entry.1 ++ ": " ++ joinStrings ", " entry.2
    untrustedInstruction ++ "\n" ++ fenceUntrusted (joinStrings "\n" lines)

/-- The filters, one to a line. -/
def renderFilters (filters : List (String × String)) : String :=
  joinStrings "\n" (filters.map fun entry => entry.1 ++ ": " ++ entry.2)

/-- The examples as question and statement. -/
def renderExamples (examples : List FewShotExample) : String :=
  joinStrings "\n\n" (examples.map fun item => "Question:\n" ++ item.question ++ "\n\nSQL:\n" ++ item.sql)

namespace PromptKnowledge

variable (K : PromptKnowledge)

/-! ## The static prefix -/

/-- `scoped_source`. -/
def scopedSource : Option String → Except UnknownDatasource (Option String)
  | none => .ok none
  | some source =>
    if K.datasourceNames.length < 2 then .ok none
    else if source ∈ K.datasourceNames then .ok (some source)
    else .error ⟨source, sortedStrings K.datasourceNames⟩

/-- `examples_for_source`, for a scoped source. -/
def examplesForSource (examples : List FewShotExample) : Option String → List FewShotExample
  | none => examples
  | some source => examples.filter fun item => K.runsOnSource item source

/-- `_all_metrics_text`. -/
def allMetricsText : String :=
  joinStrings "\n" (K.metrics.map fun metric =>
    metric.key ++ ": " ++ metric.expression ++
      if metric.aliases.isEmpty then "" else " (aliases: " ++ joinStrings ", " metric.aliases ++ ")")

/-- What `build_static_prefix` fills its template with. -/
def staticPrefixFill (systemPrompt : String) (source : Option String) : PromptSlot → String
  | .systemPrompt => systemPrompt
  | .businessRules => joinStrings "\n\n" (K.businessRules.filter (· ≠ ""))
  | .metrics => K.allMetricsText
  | .schema => K.buildSchemaContext [] source
  | .relationships => joinStrings "\n" (K.getRelationships ((source.map K.tablesForSource).getD K.tables))
  | .examples => renderExamples (K.examplesForSource K.examples source)
  | _ => ""

/-- `build_static_prefix`, for a scoped source. -/
def buildStaticPrefix (systemPrompt : String) (source : Option String) : String :=
  staticPrefixTemplate.format (K.staticPrefixFill systemPrompt source)

/-- `estimate_tokens`. -/
def estimateTokens (text : String) : ℕ := if text = "" then 0 else max 1 (text.length / 4)

/-- `should_use_static_prefix`. -/
def shouldUseStaticPrefix (systemPrompt : String) (source : Option String) : Bool :=
  if K.retrievalTokenBudget ≤ 0 then false
  else decide ((estimateTokens (K.buildStaticPrefix systemPrompt source) : ℤ) ≤ K.retrievalTokenBudget)

/-! ## The two paths -/

/-- What `build_static_suffix` fills its template with. -/
def staticSuffixFill (question : String) (context : RetrievalContext) (sessionContext : String)
    (resolvedValues : List (String × List String)) (accessNotes : String) : PromptSlot → String
  | .filters => renderFilters context.filters
  | .resolvedValues => renderResolvedValues resolvedValues
  | .sessionContext => sessionContext
  | .accessNotes => renderAccessNotes accessNotes
  | .question => question
  | _ => ""

/-- `PromptBuilder.build_static_suffix`. -/
def buildStaticSuffix (question : String) (context : RetrievalContext) (sessionContext : String)
    (resolvedValues : List (String × List String)) (accessNotes : String) : String :=
  suffixTemplate.format (staticSuffixFill question context sessionContext resolvedValues accessNotes)

/-- `PromptBuilder.build_static`. -/
def buildStatic (question systemPrompt : String) (context : RetrievalContext) (sessionContext : String)
    (resolvedValues : List (String × List String)) (source : Option String) (accessNotes : String) : String :=
  K.buildStaticPrefix systemPrompt source ++
    buildStaticSuffix question context sessionContext resolvedValues accessNotes

/-- The tables the retrieval path shows. -/
def shownTables (context : RetrievalContext) : Option String → List String
  | none => context.selectedTables
  | some source =>
    let kept := context.selectedTables.filter (· ∈ K.tablesForSource source)
    if kept.isEmpty then K.tablesForSource source else kept

/-- What `_build_retrieval` fills its template with. -/
def retrievalFill (question systemPrompt : String) (context : RetrievalContext)
    (resolvedValues : List (String × List String)) (source : Option String) (accessNotes : String) :
    PromptSlot → String
  | .systemPrompt => systemPrompt
  | .businessRules => joinStrings "\n\n" context.businessRules
  | .schema => K.buildSchemaContext (K.shownTables context source) source
  | .relationships => joinStrings "\n" <|
    if source.isNone then context.relationships else K.getRelationships (K.shownTables context source)
  | .filters => renderFilters context.filters
  | .resolvedValues => renderResolvedValues resolvedValues
  | .accessNotes => renderAccessNotes accessNotes
  | .examples => renderExamples (K.examplesForSource context.examples source)
  | .question => question
  | _ => ""

/-- `PromptBuilder._build_retrieval`: the session context is a parameter it does not use. -/
def buildRetrieval (question systemPrompt : String) (context : RetrievalContext) (_sessionContext : String)
    (resolvedValues : List (String × List String)) (source : Option String) (accessNotes : String) : String :=
  promptTemplate.format (K.retrievalFill question systemPrompt context resolvedValues source accessNotes)

/-- `PromptBuilder.build`. -/
def build (question systemPrompt : String) (context : RetrievalContext) (sessionContext : String)
    (resolvedValues : List (String × List String)) (source : Option String) (accessNotes : String) :
    Except UnknownDatasource String := do
  let source ← K.scopedSource source
  if K.shouldUseStaticPrefix systemPrompt source then
    return K.buildStatic question systemPrompt context sessionContext resolvedValues source accessNotes
  return K.buildRetrieval question systemPrompt context sessionContext resolvedValues source accessNotes

end PromptKnowledge

/-! ## Segments -/

/-- `PromptSegments`. -/
structure PromptSegments where
  staticPrefix : String
  sessionContext : String
  question : String

/-- `PromptSegments.flatten`. -/
def PromptSegments.flatten (segments : PromptSegments) : String :=
  joinStrings "\n\n" ([segments.staticPrefix, segments.sessionContext, segments.question].filter (· ≠ ""))

/-- `llm.router.build_prompt_segments`; `joinOnlyPromptLine` is the line of the principal's denied
columns. -/
def PromptKnowledge.buildPromptSegments (K : PromptKnowledge) (question systemPrompt : String)
    (context : RetrievalContext) (sessionContext : String) (source : Option String)
    (joinOnlyPromptLine : Option String → String) : Except UnknownDatasource PromptSegments := do
  let source ← K.scopedSource source
  let accessNotes := joinOnlyPromptLine source
  if K.shouldUseStaticPrefix systemPrompt source then
    let suffix := PromptKnowledge.buildStaticSuffix question context sessionContext context.resolvedValues accessNotes
    return ⟨K.buildStaticPrefix systemPrompt source, "", suffix⟩
  let full ← K.build question systemPrompt context sessionContext context.resolvedValues source accessNotes
  return ⟨"", "", full⟩

end LocalSqlAgent
