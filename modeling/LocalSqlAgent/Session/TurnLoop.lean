import LocalSqlAgent.Llm.StepRules
import LocalSqlAgent.Session.Store

/-! # The turn engine's correction loop

`_generate_validate_execute` of `session.engine`: rounds of generate, guard, filter enforcement,
spelling fix, filter value check and execution, until one of them decides the turn. `meets_turnRound` is the triple of a round. -/

namespace LocalSqlAgent

/-! ## Outcomes -/

/-- `TurnErrorInfo`. -/
structure TurnErrorInfo where
  /-- The code. -/
  code : String
  /-- The text the client reads. -/
  message : String

/-- `GuardVerdict`. -/
inductive GuardVerdict where
  | allowed (injectedTop : Option Nat) (tablesTouched : List String)
  | rejected (rule : String) (reason : Option Reason) (subject rejectedSql : Option String)

/-- `_GenOutcome`. -/
structure GenOutcome where
  /-- The statement that ran. -/
  sql : Option String := none
  /-- The guard's verdict. -/
  guard : Option GuardVerdict := none
  /-- The rows. -/
  result : Option TurnResult := none
  /-- The warnings. -/
  warnings : List String := []
  /-- The error. -/
  error : Option TurnErrorInfo := none
  /-- The tier, absent where no statement was judged. -/
  tier : Option String := some "T2"
  /-- The corrections the turn took. -/
  corrections : Nat := 0

/-- What the turn engine reads besides: the filters it enforces, and how it words failures. -/
structure TurnWorld extends LoopWorld where
  /-- `_missing_dimension_filters`: the enforced filters the text does not reference. -/
  missingFilters : String → List (String × String)
  /-- `classify_database_error`. -/
  classifyDatabaseError : PyError → TurnErrorInfo
  /-- `_infer_type` of a column. -/
  inferType : DataFrame → String → String
  /-- `settings.llm_num_predict`. -/
  llmNumPredict : Nat

section Loop

variable (W : TurnWorld) (S : LoopSettings)

/-- `_classify_router_failure`. -/
def classifyRouterFailure (e : RouterError) : TurnErrorInfo :=
  let cause := e.unwrapped
  let timedOut := match cause with
    | .timeoutError _ => true
    | _ => false
  if cause.message = "OUT_OF_SCOPE" then
    ⟨"OUT_OF_SCOPE", "This question is outside the scope of the data this system covers."⟩
  else if timedOut || decide ("timeout".toList <:+: (W.lower cause.message).toList) then
    ⟨"MODEL_TIMEOUT", "The LLM took too long to respond. Please try again."⟩
  else
    ⟨"MODEL_UNAVAILABLE", "The language model is currently unreachable. Please try again."⟩

/-- `truncated_output_message`. -/
def truncatedOutputMessage (maxTokens : Nat) : String :=
  "The model hit its " ++ toString maxTokens ++ "-token completion limit before " ++
    "producing any SQL (finish_reason=length with empty content). This " ++
    "is the usual signature of a reasoning model spending its whole " ++
    "completion budget thinking before it answers. Either raise " ++
    "LLM_NUM_PREDICT (2048-4096 suits a reasoning model), or turn the " ++
    "model's reasoning off with LLM_EXTRA_BODY -- for Qwen3 on vLLM or " ++
    "SGLang: \x7b\"chat_template_kwargs\":\x7b\"enable_thinking\":false\x7d\x7d. " ++
    "Retrying will not help: nothing about this depends on the question."

/-- The outcome of a refused candidate; `cleaned` is the statement, when there was one. -/
def rejectedOutcome (e : PyError) (cleaned : Option String) : GenOutcome where
  guard := some (.rejected e.message e.reasonSubject.1 e.reasonSubject.2 cleaned)
  result := some ⟨[], [], 0, false, false⟩
  warnings := ["پرس‌وجوی تولیدشده توسط لایهٔ نگهبانی امنیتی رد شد: " ++ e.message]

/-- `_FILTER_NOT_APPLIED_WARNING`. -/
def filterNotApplied (value : String) : String :=
  "فیلتر «" ++ value ++
    "» در پرس‌وجوی نهایی اعمال نشد؛ ممکن است نتیجه شامل داده‌های بیرون از این فیلتر باشد."

/-- What a turn's loop remembers from round to round. -/
structure TurnState extends LoopState where
  /-- `filter_correction_used`. -/
  filterCorrectionUsed : Bool

/-- The statement a round is about to run, with its rows when it already ran. -/
structure Chosen where
  /-- The statement. -/
  sql : String
  /-- The cap injected into it. -/
  injectedTop : Option Nat
  /-- The enforced filters it does not reference. -/
  missing : List (String × String)
  /-- `value_df`. -/
  data : Option DataFrame

/-- A round that failed: an outcome on the last one, else another round. -/
def lastOrAgain (k : Nat) (s : TurnState) (outcome : GenOutcome) : Decision GenOutcome TurnState :=
  if (k : Int) = S.maxCorrections then .leave outcome else .again s

/-- The handlers of the guard: a policy rejection ends the turn, any other `ValueError` is corrected,
anything else leaves the loop. -/
def refused (k : Nat) (s : TurnState) (cleaned : Option String) (e : PyError) :
    LoopM (Decision GenOutcome TurnState) :=
  if e.isPolicy then return .leave (rejectedOutcome e cleaned)
  else if e.isValueError then return lastOrAgain S k s (rejectedOutcome e cleaned)
  else throw e

/-- What the engine asks of a corrected statement: it misses no filter the original applied. -/
def keepsFilters (missing : List (String × String)) (sql : String) : Except PyError Unit :=
  if (W.missingFilters sql).map (·.1) ⊆ missing.map (·.1) then .ok ()
  else .error (.valueError "the corrected statement drops a filter the question named")

/-- The statement a round runs: the corrected one of the filter value check if it ran, else the
original. -/
def chooseStatement (s : TurnState) (original : Chosen) : LoopM (TurnState × Chosen) := do
  let (shared, corrected) ← filterValueCheck W.toLoopWorld S (keepsFilters W original.missing)
    (executeQuery W.toLoopWorld) s.toLoopState original.sql
  let s' := { s with toLoopState := shared }
  match corrected with
  | some c => return (s', ⟨c.sql, c.injectedTop, W.missingFilters c.sql, some c.data⟩)
  | none => return (s', original)

/-- The outcome of a statement the database refused. -/
def executionFailed (chosen : Chosen) (e : PyError) : GenOutcome where
  sql := some chosen.sql
  guard := some (.allowed chosen.injectedTop (W.touchedTables S.sqlDialect chosen.sql))
  error := some (W.classifyDatabaseError e)

/-- The rows of a query as a turn shows them; `truncated` when the injected cap was reached. -/
def turnResultOf (injectedTop : Option Nat) (data : DataFrame) : TurnResult where
  columns := data.columns.map fun column => (column, W.inferType data column)
  rows := data.rows.map fun row => data.columns.zip row
  rowCount := data.rows.length
  truncated := injectedTop.any (· ≤ data.rows.length)
  rowsOmitted := false

/-- The outcome of a statement that ran. -/
def answered (k : Nat) (s : TurnState) (chosen : Chosen) (data : DataFrame) : GenOutcome where
  sql := some chosen.sql
  guard := some (.allowed chosen.injectedTop (W.touchedTables S.sqlDialect chosen.sql))
  result := some (turnResultOf W chosen.injectedTop data)
  warnings := chosen.missing.map fun filter => filterNotApplied filter.2
  corrections := k + s.extraRound

/-- The execution of a round: whatever it raises is corrected. -/
def executeChosen (k : Nat) (s : TurnState) (chosen : Chosen) :
    LoopM (Decision GenOutcome TurnState) := do
  let fetch : LoopM DataFrame := match chosen.data with
    | some data => pure data
    | none => executeQuery W.toLoopWorld chosen.sql
  match ← LogM.attempt fetch with
  | .ok data => return .leave (answered W S k s chosen data)
  | .error e => return lastOrAgain S k s (executionFailed W S chosen e)

/-- A round from an accepted statement on. The regeneration for a missing filter happens once and
never on the last round. -/
def runCandidate (k : Nat) (s : TurnState) (capped : String) (injectedTop : Option Nat) :
    LoopM (Decision GenOutcome TurnState) := do
  let missing := W.missingFilters capped
  if missing ≠ [] ∧ s.filterCorrectionUsed = false ∧ (k : Int) < S.maxCorrections then
    return .again { s with filterCorrectionUsed := true }
  else
    let sql ← respellFilters W.toLoopWorld S capped
    let (s', chosen) ← chooseStatement W S s ⟨sql, injectedTop, missing, none⟩
    executeChosen W S k s' chosen

/-- **One correction round.** -/
def turnRound (k : Nat) (s : TurnState) : LoopM (Decision GenOutcome TurnState) := do
  let (answer, routing) ← generateWithSourceFallback W.toLoopWorld s.routing
  let s' := { s with routing }
  match answer with
  | .error e => return .leave { error := some (classifyRouterFailure W e), tier := none }
  | .ok completion =>
    if completion.text.toList.all isPySpace then
      if completion.finishReason = "length" then
        return .leave { error := some ⟨"LLM_OUTPUT_TRUNCATED", truncatedOutputMessage W.llmNumPredict⟩
                        tier := none }
      else
        return lastOrAgain S k s'
          { error := some ⟨"EMPTY_SQL_RESPONSE", "LLM returned an empty response."⟩, tier := none }
    else
      match W.cleanSql completion.text with
      | .error e => refused S k s' none e
      | .ok cleaned =>
        match ← LogM.attempt (validateAndCap W.toLoopWorld S .candidate cleaned) with
        | .error e => refused S k s' (some cleaned) e
        | .ok (capped, injectedTop) => runCandidate W S k s' capped injectedTop

/-- The loop over `range(max_corrections + 1)`; `none` when it runs out of rounds. -/
def turnRounds (routing : Option SourceRouting) : LoopM (Option GenOutcome) :=
  forRounds (turnRound W S) 0 (S.maxCorrections + 1).toNat ⟨⟨routing, false, 0⟩, false⟩

/-- **`_generate_validate_execute`.** -/
def generateValidateExecute (routing : Option SourceRouting) : LoopM GenOutcome := do
  match ← turnRounds W S routing with
  | some outcome => return outcome
  | none => throw (.runtimeError "TurnEngine generation loop exited unexpectedly")

end Loop

/-! ## The loop's triple -/

section Triple

variable {W : TurnWorld} {S : LoopSettings} {k : Nat} {s : TurnState}

/-- A failed round leaves, or goes on only when a round is left. -/
theorem roundDecided_lastOrAgain (hk : (k : Int) ≤ S.maxCorrections) {outcome : GenOutcome}
    {log : List LoopEvent} (h : RoundRunning W.toLoopWorld S TurnState.toLoopState k s log) :
    RoundDecided W.toLoopWorld S GenOutcome TurnState.toLoopState k (lastOrAgain S k s outcome)
      log := by
  unfold lastOrAgain
  split
  · exact within_request hk h.toWithin
  · rename_i hlast
    exact roundDecided_again hk hlast h

/-- **The handlers of the guard** call nothing: a policy rejection leaves the loop. -/
theorem meets_refused (hk : (k : Int) ≤ S.maxCorrections) {cleaned : Option String} {e : PyError} :
    Meets (AfterRejection W.toLoopWorld S .candidate
        (loopBudget (k + 1) s.routing s.valueChecked) e)
      (refused S k s cleaned e)
      (RoundDecided W.toLoopWorld S GenOutcome TurnState.toLoopState k)
      (fun _ => Within W.toLoopWorld S (requestBudget S)) := by
  unfold refused
  split
  · exact meets_pure fun l hl => within_request hk hl.toWithin
  · rename_i hpolicy
    split
    · exact meets_pure fun l hl => roundDecided_lastOrAgain hk (hl.reopen fun h => hpolicy h.2)
    · exact meets_throw fun l hl => within_request hk hl.toWithin

/-- The statement a round runs is approved, unless it already ran. -/
theorem meets_chooseStatement {E : PyError → List LoopEvent → Prop} (original : Chosen) :
    Meets (fun l => RoundRunning W.toLoopWorld S TurnState.toLoopState k s l ∧
        Approved W.toLoopWorld S original.sql l)
      (chooseStatement W S s original)
      (fun r l => RoundRunning W.toLoopWorld S TurnState.toLoopState k r.1 l ∧
        (r.2.data = none → Approved W.toLoopWorld S r.2.sql l)) E := by
  refine ((meets_filterValueCheck fetchesApproved_executeQuery original.sql).frame_ok
    (persistent_approved original.sql)).bind fun (shared, corrected) => ?_
  cases corrected with
  | some c => exact meets_pure fun l ⟨hopen, _⟩ => ⟨hopen, nofun⟩
  | none => exact meets_pure fun l ⟨hopen, happroved⟩ => ⟨hopen, fun _ => happroved⟩

/-- **Execution** runs an approved statement and corrects whatever it raises. -/
theorem meets_executeChosen (hk : (k : Int) ≤ S.maxCorrections)
    {E : PyError → List LoopEvent → Prop} (chosen : Chosen) :
    Meets (fun l => RoundRunning W.toLoopWorld S TurnState.toLoopState k s l ∧
        (chosen.data = none → Approved W.toLoopWorld S chosen.sql l))
      (executeChosen W S k s chosen)
      (RoundDecided W.toLoopWorld S GenOutcome TurnState.toLoopState k) E := by
  unfold executeChosen
  refine (meets_attempt (Q := fun _ => RoundRunning W.toLoopWorld S TurnState.toLoopState k s)
    (E := fun _ => RoundRunning W.toLoopWorld S TurnState.toLoopState k s) ?_).bind
    fun outcome => ?_
  · cases hdata : chosen.data with
    | some data => exact meets_pure fun l hl => hl.1
    | none =>
      exact (meets_executeQuery chosen.sql).pre fun l ⟨hopen, happroved⟩ => ⟨hopen, happroved rfl⟩
  · cases outcome with
    | ok data => exact meets_pure fun l hl => within_request hk hl.toWithin
    | error e => exact meets_pure fun l hl => roundDecided_lastOrAgain hk hl

theorem meets_runCandidate (hk : (k : Int) ≤ S.maxCorrections)
    {E : PyError → List LoopEvent → Prop} {capped : String} {injectedTop : Option Nat} :
    Meets (fun l => RoundRunning W.toLoopWorld S TurnState.toLoopState k s l ∧
        Checked W.toLoopWorld S capped l)
      (runCandidate W S k s capped injectedTop)
      (RoundDecided W.toLoopWorld S GenOutcome TurnState.toLoopState k) E := by
  unfold runCandidate
  dsimp only
  split
  · rename_i hmissing
    exact meets_pure fun l hl => ⟨hl.1, by omega⟩
  · exact (meets_respellFilters capped).bind fun sql =>
      (meets_chooseStatement ⟨sql, injectedTop, W.missingFilters capped, none⟩).bind
        fun (s', chosen) => meets_executeChosen hk chosen

/-- **One round** keeps the invariant, or leaves within the budget. -/
theorem meets_turnRound (k : Nat) (s : TurnState) :
    Meets (RoundInv W.toLoopWorld S TurnState.toLoopState k s) (turnRound W S k s)
      (RoundDecided W.toLoopWorld S GenOutcome TurnState.toLoopState k)
      (fun _ => Within W.toLoopWorld S (requestBudget S)) := by
  refine Meets.of_pure fun hk => ?_
  refine meets_generateWithSourceFallback.bind fun (answer, routing) => ?_
  dsimp only
  cases answer with
  | error e => exact meets_pure fun l hl => within_request hk hl.toWithin
  | ok completion =>
    dsimp only
    split
    · split
      · exact meets_pure fun l hl => within_request hk hl.toWithin
      · exact meets_pure fun l hl => roundDecided_lastOrAgain (s := { s with routing }) hk hl
    · cases W.cleanSql completion.text with
      | error e =>
        exact (meets_refused hk (s := { s with routing })).pre fun l hl => hl.afterRejection _ e
      | ok cleaned =>
        refine (meets_attempt (meets_validateAndCap .candidate cleaned)).bind fun outcome => ?_
        cases outcome with
        | error e => exact meets_refused (s := { s with routing }) hk
        | ok checked => exact meets_runCandidate (s := { s with routing }) hk

end Triple

end LocalSqlAgent
