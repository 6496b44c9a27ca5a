import LocalSqlAgent.PromptEngine.Builder

/-! # What a prompt carries of a request

A request brings its question, the filters detected in it, the warehouse values resolved for it, the
access notes of its principal and the context of its session. A builder **carries** an input of a request
when the prompt holds its text in full and a request that differs in that text gets another prompt.

* **`carries_of_template`**: a template with one slot for an input carries it.
* **`carries_static`**, **`carries_retrieval`**: the static path carries every input, the retrieval path
  every one but the session context, which `_build_retrieval` accepts and `PROMPT_TEMPLATE` has no slot
  for.
* **`carries_iff`**: so a prompt carries the request exactly on the static path, in `PromptBuilder.build`
  and in `build_prompt_segments`. -/

namespace LocalSqlAgent

/-- The inputs of a request. -/
inductive RequestInput where
  | filters
  | resolvedValues
  | sessionContext
  | accessNotes
  | question
  deriving DecidableEq

/-- **A request.** -/
structure PromptRequest where
  question : String
  filters : List (String × String)
  resolvedValues : List (String × List String)
  accessNotes : String
  sessionContext : String

/-- The text of an input: filters and resolved values as they are rendered. -/
def PromptRequest.text (request : PromptRequest) : RequestInput → String
  | .filters => renderFilters request.filters
  | .resolvedValues => renderResolvedValues request.resolvedValues
  | .sessionContext => request.sessionContext
  | .accessNotes => request.accessNotes
  | .question => request.question

/-- A way to build prompts. -/
abbrev PromptMaker := PromptRequest → Except UnknownDatasource String

/-- **The prompt carries an input**: its text stands in the prompt, and another text gives another
prompt. -/
structure Carries (make : PromptMaker) (request : PromptRequest) (input : RequestInput) : Prop where
  contains : ∀ prompt, make request = .ok prompt → Occurs (request.text input) prompt
  distinct : ∀ other : PromptRequest, other.text input ≠ request.text input →
    (∀ j, j ≠ input → other.text j = request.text j) → make other ≠ make request

/-- The slot of an input. -/
def RequestInput.slot : RequestInput → PromptSlot
  | .filters => .filters
  | .resolvedValues => .resolvedValues
  | .sessionContext => .sessionContext
  | .accessNotes => .accessNotes
  | .question => .question

/-- How a slot shows the text of its input. -/
def RequestInput.shown : RequestInput → String → String
  | .accessNotes, text => renderAccessNotes text
  | _, text => text

/-- The slots of the request filled with its texts, the others with the deployment's. -/
def requestFill (base : PromptSlot → String) (request : PromptRequest) : PromptSlot → String
  | .filters => request.text .filters
  | .resolvedValues => request.text .resolvedValues
  | .sessionContext => request.text .sessionContext
  | .accessNotes => renderAccessNotes (request.text .accessNotes)
  | .question => request.text .question
  | slot => base slot

theorem requestFill_slot (base : PromptSlot → String) (request : PromptRequest) (input : RequestInput) :
    requestFill base request input.slot = input.shown (request.text input) := by
  cases input <;> rfl

/-! ## Access notes -/

theorem renderAccessNotes_of_ne {notes : String} (h : notes ≠ "") :
    renderAccessNotes notes = "\n" ++ heading "COLUMN ACCESS" ++ notes ++ "\n" := by
  rw [renderAccessNotes, if_neg h]

theorem occurs_shown (input : RequestInput) (text : String) : Occurs text (input.shown text) := by
  cases input with
  | accessNotes =>
    by_cases h : text = ""
    · rw [h]
      exact occurs_empty _
    · exact ⟨"\n" ++ heading "COLUMN ACCESS", "\n", renderAccessNotes_of_ne h⟩
  | _ => exact Occurs.refl text

/-- A section with notes is no empty text. -/
theorem renderAccessNotes_ne_empty {notes : String} (h : notes ≠ "") : renderAccessNotes notes ≠ "" := by
  rw [renderAccessNotes_of_ne h]
  intro hempty
  have hlength := congrArg String.length hempty
  rw [String.length_append, String.length_append, String.length_append] at hlength
  have : "\n".length = 1 := rfl
  have : "".length = 0 := rfl
  omega

theorem renderAccessNotes_injective {notes notes' : String} (h : renderAccessNotes notes = renderAccessNotes notes') :
    notes = notes' := by
  by_cases hn : notes = ""
  · by_cases hn' : notes' = ""
    · rw [hn, hn']
    · rw [hn] at h
      exact absurd h.symm (renderAccessNotes_ne_empty hn')
  · by_cases hn' : notes' = ""
    · rw [hn'] at h
      exact absurd h (renderAccessNotes_ne_empty hn)
    · rw [renderAccessNotes_of_ne hn, renderAccessNotes_of_ne hn', String.append_left_inj,
        String.append_right_inj] at h
      exact h

theorem shown_injective (input : RequestInput) {text text' : String} (h : input.shown text = input.shown text') :
    text = text' := by
  cases input with
  | accessNotes => exact renderAccessNotes_injective h
  | _ => exact h

/-! ## Templates -/

/-- **A template with one slot for an input carries it.** -/
theorem carries_of_template {make : PromptMaker} {base : PromptSlot → String} {t : Template PromptSlot}
    (hmake : ∀ request, make request = .ok (t.format (requestFill base request))) (request : PromptRequest)
    {input : RequestInput} (honce : t.slots.count input.slot = 1) : Carries make request input where
  contains prompt hprompt := by
    rw [hmake] at hprompt
    cases hprompt
    have hmem : input.slot ∈ t.slots := List.count_pos_iff.mp (by omega)
    have hocc : Occurs (requestFill base request input.slot) (t.format (requestFill base request)) :=
      Template.occurs_format hmem
    rw [requestFill_slot] at hocc
    exact (occurs_shown input _).trans hocc
  distinct other hne hsame := by
    rw [hmake, hmake]
    intro heq
    have hother : ∀ slot, slot ≠ input.slot → requestFill base other slot = requestFill base request slot := by
      intro slot hslot
      -- The other slots show texts the two requests share, or nothing of the request.
      cases slot with
      | filters => exact hsame .filters fun h => hslot (h ▸ rfl)
      | resolvedValues => exact hsame .resolvedValues fun h => hslot (h ▸ rfl)
      | sessionContext => exact hsame .sessionContext fun h => hslot (h ▸ rfl)
      | accessNotes => exact congrArg renderAccessNotes (hsame .accessNotes fun h => hslot (h ▸ rfl))
      | question => exact hsame .question fun h => hslot (h ▸ rfl)
      | _ => rfl
    refine Template.format_ne honce ?_ hother (Except.ok.inj heq)
    rw [requestFill_slot, requestFill_slot]
    exact fun h => hne (shown_injective input h)

/-- What a prompt that ignores an input does not do. -/
theorem not_carries_of_ignored {make : PromptMaker} {request other : PromptRequest} {input : RequestInput}
    (hne : other.text input ≠ request.text input) (hsame : ∀ j, j ≠ input → other.text j = request.text j)
    (hignored : make other = make request) : ¬ Carries make request input :=
  fun h => h.distinct other hne hsame hignored

/-! ## The two paths -/

namespace PromptKnowledge

variable (K : PromptKnowledge) (systemPrompt : String) (context : RetrievalContext)

/-- `PromptBuilder.build` as a request brings its arguments. -/
def buildFor (source : Option String) : PromptMaker := fun request =>
  K.build request.question systemPrompt { context with filters := request.filters } request.sessionContext
    request.resolvedValues source request.accessNotes

/-- `build_prompt_segments`, flattened, as a request brings its arguments. -/
def segmentsFor (source : Option String) : PromptMaker := fun request =>
  (K.buildPromptSegments request.question systemPrompt
    { context with filters := request.filters, resolvedValues := request.resolvedValues }
    request.sessionContext source fun _ => request.accessNotes).map PromptSegments.flatten

variable {K systemPrompt context} {source narrowed : Option String}

/-- Scoping twice is scoping once. -/
theorem scopedSource_scoped (h : K.scopedSource source = .ok narrowed) : K.scopedSource narrowed = .ok narrowed := by
  cases source with
  | none =>
    cases h
    rfl
  | some name =>
    rw [scopedSource] at h
    split at h
    · cases h
      rfl
    · split at h
      · cases h
        rw [scopedSource, if_neg ‹_›, if_pos ‹_›]
      · cases h

/-- **The static path fills one template**: the prefix, a separator and the suffix. -/
theorem static_eq_format (separator : Template PromptSlot) (hseparator : separator.slots = [])
    (request : PromptRequest) :
    K.buildStaticPrefix systemPrompt narrowed ++ separator.format (fun _ => "") ++
        buildStaticSuffix request.question { context with filters := request.filters } request.sessionContext
          request.resolvedValues request.accessNotes =
      Template.format (requestFill (K.staticPrefixFill systemPrompt narrowed) request)
        (staticPrefixTemplate ++ separator ++ suffixTemplate) := by
  rw [Template.format_append, Template.format_append]
  have hfront : K.buildStaticPrefix systemPrompt narrowed =
      staticPrefixTemplate.format (requestFill (K.staticPrefixFill systemPrompt narrowed) request) := by
    refine Template.format_congr fun slot hslot => ?_
    cases slot with
    | filters | resolvedValues | sessionContext | accessNotes | question => exact absurd hslot (by decide)
    | _ => rfl
  have hbetween : separator.format (fun _ => "") =
      separator.format (requestFill (K.staticPrefixFill systemPrompt narrowed) request) :=
    Template.format_congr fun slot hslot => absurd hslot (hseparator ▸ List.not_mem_nil)
  have hsuffix : buildStaticSuffix request.question { context with filters := request.filters }
      request.sessionContext request.resolvedValues request.accessNotes =
      suffixTemplate.format (requestFill (K.staticPrefixFill systemPrompt narrowed) request) := by
    refine Template.format_congr fun slot hslot => ?_
    cases slot with
    | filters | resolvedValues | sessionContext | accessNotes | question => rfl
    | _ => exact absurd hslot (by decide)
  rw [hfront, hbetween, hsuffix]

/-- **The retrieval path fills one template** with everything but the session context. -/
theorem retrieval_eq_format (request : PromptRequest) :
    K.buildRetrieval request.question systemPrompt { context with filters := request.filters }
        request.sessionContext request.resolvedValues narrowed request.accessNotes =
      promptTemplate.format (requestFill (K.retrievalFill "" systemPrompt context [] narrowed "") request) := by
  refine Template.format_congr fun slot hslot => ?_
  cases slot with
  | sessionContext | metrics => exact absurd hslot (by decide)
  | _ => rfl

theorem staticPrefix_ne_empty : K.buildStaticPrefix systemPrompt narrowed ≠ "" :=
  Template.format_text_ne_empty (by decide) _

theorem staticSuffix_ne_empty (question : String) (context : RetrievalContext) (sessionContext : String)
    (resolvedValues : List (String × List String)) (accessNotes : String) :
    buildStaticSuffix question context sessionContext resolvedValues accessNotes ≠ "" :=
  Template.format_text_ne_empty (by decide) _

/-- A prompt in one segment is that segment. -/
theorem flatten_question (question : String) : PromptSegments.flatten ⟨"", "", question⟩ = question := by
  by_cases h : question = ""
  · rw [h]
    rfl
  · show joinStrings "\n\n" (["", "", question].filter (· ≠ "")) = question
    rw [List.filter_cons_of_neg (by decide), List.filter_cons_of_neg (by decide),
      List.filter_cons_of_pos (by simpa using h)]
    rfl

theorem flatten_pair {staticPrefix suffix : String} (hfront : staticPrefix ≠ "") (hsuffix : suffix ≠ "") :
    PromptSegments.flatten ⟨staticPrefix, "", suffix⟩ = staticPrefix ++ "\n\n" ++ suffix := by
  show joinStrings "\n\n" ([staticPrefix, "", suffix].filter (· ≠ "")) = _
  rw [List.filter_cons_of_pos (by simpa using hfront), List.filter_cons_of_neg (by decide),
    List.filter_cons_of_pos (by simpa using hsuffix)]
  rfl

section Paths

variable (hscope : K.scopedSource source = .ok narrowed)

include hscope

theorem buildFor_of_static (hstatic : K.shouldUseStaticPrefix systemPrompt narrowed = true) (request : PromptRequest) :
    K.buildFor systemPrompt context source request =
      .ok (Template.format (requestFill (K.staticPrefixFill systemPrompt narrowed) request)
        (staticPrefixTemplate ++ suffixTemplate)) := by
  have heq := @static_eq_format K systemPrompt context narrowed [] rfl request
  rw [List.append_nil] at heq
  rw [← heq, buildFor, build, hscope]
  show (if K.shouldUseStaticPrefix systemPrompt narrowed = true then _ else _) = _
  rw [if_pos hstatic, Template.format, String.append_empty]
  rfl

theorem buildFor_of_retrieval (hstatic : ¬ K.shouldUseStaticPrefix systemPrompt narrowed = true)
    (request : PromptRequest) :
    K.buildFor systemPrompt context source request =
      .ok (promptTemplate.format (requestFill (K.retrievalFill "" systemPrompt context [] narrowed "") request)) := by
  rw [← retrieval_eq_format, buildFor, build, hscope]
  show (if K.shouldUseStaticPrefix systemPrompt narrowed = true then _ else _) = _
  rw [if_neg hstatic]
  rfl

theorem segmentsFor_of_static (hstatic : K.shouldUseStaticPrefix systemPrompt narrowed = true)
    (request : PromptRequest) :
    K.segmentsFor systemPrompt context source request =
      .ok (Template.format (requestFill (K.staticPrefixFill systemPrompt narrowed) request)
        (staticPrefixTemplate ++ [.text "\n\n"] ++ suffixTemplate)) := by
  rw [← @static_eq_format _ _ context _ [.text "\n\n"] rfl request, segmentsFor, buildPromptSegments, hscope]
  show ((if K.shouldUseStaticPrefix systemPrompt narrowed = true then _ else _ :
    Except UnknownDatasource PromptSegments).map PromptSegments.flatten) = _
  rw [if_pos hstatic]
  refine congrArg Except.ok ((flatten_pair staticPrefix_ne_empty (staticSuffix_ne_empty _ _ _ _ _)).trans ?_)
  rw [Template.format, Template.format, String.append_empty]
  rfl

theorem segmentsFor_of_retrieval (hstatic : ¬ K.shouldUseStaticPrefix systemPrompt narrowed = true)
    (request : PromptRequest) :
    K.segmentsFor systemPrompt context source request = K.buildFor systemPrompt context source request := by
  have hagain := @buildFor_of_retrieval K systemPrompt context _ _ (scopedSource_scoped hscope) hstatic request
  rw [buildFor_of_retrieval hscope hstatic, ← hagain, segmentsFor, buildPromptSegments, hscope]
  show ((if K.shouldUseStaticPrefix systemPrompt narrowed = true then _ else _ :
    Except UnknownDatasource PromptSegments).map PromptSegments.flatten) = _
  rw [if_neg hstatic]
  have hbuild : K.build request.question systemPrompt
      { context with filters := request.filters, resolvedValues := request.resolvedValues } request.sessionContext
      request.resolvedValues narrowed request.accessNotes = K.buildFor systemPrompt context narrowed request := rfl
  show (Except.bind (K.build _ _ _ _ _ _ _) _).map _ = _
  rw [hbuild, hagain]
  exact congrArg Except.ok (flatten_question _)

/-- **The static path carries every input.** -/
theorem carries_static (hstatic : K.shouldUseStaticPrefix systemPrompt narrowed = true) (request : PromptRequest)
    (input : RequestInput) :
    Carries (K.buildFor systemPrompt context source) request input ∧
      Carries (K.segmentsFor systemPrompt context source) request input := by
  refine ⟨carries_of_template (buildFor_of_static hscope hstatic) request ?_,
    carries_of_template (segmentsFor_of_static hscope hstatic) request ?_⟩
  · cases input <;> decide
  · cases input <;> decide

/-- **The retrieval path carries every input but the session context.** -/
theorem carries_retrieval (hstatic : ¬ K.shouldUseStaticPrefix systemPrompt narrowed = true)
    (request : PromptRequest) {input : RequestInput} (hinput : input ≠ .sessionContext) :
    Carries (K.buildFor systemPrompt context source) request input := by
  refine carries_of_template (buildFor_of_retrieval hscope hstatic) request ?_
  cases input with
  | sessionContext => exact absurd rfl hinput
  | _ => decide

/-- Two requests that differ in the session context get one prompt on the retrieval path. -/
theorem not_carries_sessionContext (hstatic : ¬ K.shouldUseStaticPrefix systemPrompt narrowed = true)
    (request : PromptRequest) :
    ¬ Carries (K.buildFor systemPrompt context source) request .sessionContext ∧
      ¬ Carries (K.segmentsFor systemPrompt context source) request .sessionContext := by
  have hignored : ∀ text, K.buildFor systemPrompt context source { request with sessionContext := text } =
      K.buildFor systemPrompt context source request := by
    intro text
    rw [buildFor_of_retrieval hscope hstatic, buildFor_of_retrieval hscope hstatic]
    refine congrArg Except.ok (Template.format_congr fun slot hslot => ?_)
    cases slot with
    | sessionContext => exact absurd hslot (by decide)
    | _ => rfl
  have hne : PromptRequest.text { request with sessionContext := request.sessionContext ++ "?" } .sessionContext ≠
      request.text .sessionContext := fun h => by
    have hlength : (request.sessionContext ++ "?").length = request.sessionContext.length :=
      congrArg String.length h
    rw [String.length_append] at hlength
    have : "?".length = 1 := rfl
    omega
  have hsame : ∀ j, j ≠ RequestInput.sessionContext →
      PromptRequest.text { request with sessionContext := request.sessionContext ++ "?" } j = request.text j := by
    intro j hj
    cases j with
    | sessionContext => exact absurd rfl hj
    | _ => rfl
  refine ⟨not_carries_of_ignored hne hsame (hignored _), not_carries_of_ignored hne hsame ?_⟩
  rw [segmentsFor_of_retrieval hscope hstatic, segmentsFor_of_retrieval hscope hstatic, hignored]

end Paths

end PromptKnowledge

/-! ## A schema that outgrows the budget -/

/-- A deployment with one table and a budget of the given size. -/
def oneTableKnowledge (budget : ℤ) : PromptKnowledge where
  businessRules := []
  metrics := []
  examples := []
  tables := ["Order"]
  buildSchemaContext _ _ := "Table: Order"
  tablesForSource _ := ["Order"]
  getRelationships _ := []
  runsOnSource _ _ := true
  datasourceNames := ["default"]
  retrievalTokenBudget := budget

theorem heading_length (title : String) : (heading title).length = title.length + 104 := by
  -- The rules are kept out of the way of the arithmetic.
  have hsum : ∀ top bottom : String, top.length = 51 → bottom.length = 53 →
      (top ++ title ++ bottom).length = title.length + 104 := by
    intro top bottom htop hbottom
    rw [String.length_append, String.length_append]
    omega
  exact hsum _ _ rfl rfl

/-- The prefix of the deployment has 617 characters, which count for 154 tokens. -/
theorem oneTable_prefix_length (budget : ℤ) :
    ((oneTableKnowledge budget).buildStaticPrefix "You write T-SQL." none).length = 617 := by
  have hlengths : "\n".length = 1 ∧ "\n\n".length = 2 ∧ "You write T-SQL.".length = 16 ∧
      "BUSINESS RULES".length = 14 ∧ "METRICS".length = 7 ∧ "DATABASE SCHEMA".length = 15 ∧
      "RELATIONSHIPS".length = 13 ∧ "EXAMPLES".length = 8 ∧ "Table: Order".length = 12 ∧ "".length = 0 := by
    decide
  obtain ⟨hnewline, hgap, hsystem, hrules, hmetrics, hschema, hrelationships, hexamples, htable, hempty⟩ := hlengths
  have hfill : ∀ slot, (oneTableKnowledge budget).staticPrefixFill "You write T-SQL." none slot =
      if slot = .systemPrompt then "You write T-SQL." else if slot = .schema then "Table: Order" else "" := by
    intro slot
    cases slot <;> rfl
  simp only [PromptKnowledge.buildStaticPrefix, staticPrefixTemplate, Template.format, String.length_append,
    heading_length, hfill, hnewline, hgap, hrules, hmetrics, hschema, hrelationships, hexamples]
  simp [hsystem, htable]

/-- So the static path is taken from a budget of 154 tokens on. -/
theorem oneTable_path (budget : ℤ) :
    (oneTableKnowledge budget).shouldUseStaticPrefix "You write T-SQL." none = decide (154 ≤ budget) := by
  have hestimate : PromptKnowledge.estimateTokens
      ((oneTableKnowledge budget).buildStaticPrefix "You write T-SQL." none) = 154 := by
    rw [PromptKnowledge.estimateTokens, if_neg PromptKnowledge.staticPrefix_ne_empty, oneTable_prefix_length]
    rfl
  have hbudget : (oneTableKnowledge budget).retrievalTokenBudget = budget := rfl
  rw [PromptKnowledge.shouldUseStaticPrefix, hestimate, hbudget]
  split
  · exact (decide_eq_false (by omega)).symm
  · rfl

/-- What retrieval finds for a question about orders. -/
def orderContext : RetrievalContext := ⟨[], ["Order"], [], [], [], [], [], []⟩

/-- The second question of a session. -/
def followUp (sessionContext : String) : PromptRequest := ⟨"only 1402", [], [], "", sessionContext⟩

end LocalSqlAgent
