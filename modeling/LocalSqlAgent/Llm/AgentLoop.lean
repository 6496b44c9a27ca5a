import LocalSqlAgent.Llm.StepRules

/-! # The stateless agent's correction loop

`_attempt_loop` of `llm.sql_agent`. It shares the steps of the turn engine's loop and differs in its
exits: a failure the loop does not correct is raised, a corrected statement of the filter value round
is the answer at once, rows may come from the statement cache, and of what execution raises only a
`RuntimeError` is corrected. -/

namespace LocalSqlAgent

/-- What the agent reads besides: the statement cache. -/
structure AgentWorld extends LoopWorld where
  /-- `sql_cache_lookup`. -/
  sqlCacheLookup : List LoopEvent → String → Except PyError (Option DataFrame)

/-- `SQLGenerationResult`, with the rows. -/
structure SqlGenerationResult where
  /-- The rows. -/
  data : DataFrame
  /-- The statement. -/
  sql : String
  /-- The model's text. -/
  rawResponse : String
  /-- The generation calls the request took. -/
  attempt : Nat
  /-- The cap `ensure_top` injected. -/
  injectedTop : Option Nat

section Loop

variable (W : AgentWorld) (S : LoopSettings)

/-- Rows from the statement cache, else from the database. -/
def fetchRows (sql : String) : LoopM DataFrame := do
  let cached ← LogM.observe fun log => W.sqlCacheLookup log sql
  match ← LogM.fromExcept cached with
  | some data => return data
  | none => executeQuery W.toLoopWorld sql

/-- A correctable failure: raised on the last round, else another round. -/
def raiseOrAgain (k : Nat) (s : LoopState) (e : PyError) :
    LoopM (Decision SqlGenerationResult LoopState) :=
  if (k : Int) = S.maxCorrections then throw e else return .again s

/-- The handlers of the guard: only a `ValueError` that is no policy rejection is corrected. -/
def agentRefused (k : Nat) (s : LoopState) (e : PyError) :
    LoopM (Decision SqlGenerationResult LoopState) :=
  if e.isPolicy then throw e
  else if e.isValueError then raiseOrAgain S k s e
  else throw e

/-- The execution of a round: only a `RuntimeError` is corrected. -/
def agentExecute (k : Nat) (s : LoopState) (sql raw : String) (injectedTop : Option Nat) :
    LoopM (Decision SqlGenerationResult LoopState) := do
  match ← LogM.attempt (fetchRows W sql) with
  | .ok data => return .leave ⟨data, sql, raw, k + 1 + s.extraRound, injectedTop⟩
  | .error e => if e.isRuntimeError then raiseOrAgain S k s e else throw e

/-- A round from an accepted statement on. -/
def agentCandidate (k : Nat) (s : LoopState) (checked raw : String) (injectedTop : Option Nat) :
    LoopM (Decision SqlGenerationResult LoopState) := do
  let sql ← respellFilters W.toLoopWorld S checked
  let (s', corrected) ← filterValueCheck W.toLoopWorld S (fun _ => .ok ()) (fetchRows W) s sql
  match corrected with
  | some c => return .leave ⟨c.data, c.sql, c.raw, k + 1 + s'.extraRound, c.injectedTop⟩
  | none => agentExecute W S k s' sql raw injectedTop

/-- **One attempt.** -/
def agentRound (k : Nat) (s : LoopState) : LoopM (Decision SqlGenerationResult LoopState) := do
  let (answer, routing) ← generateWithSourceFallback W.toLoopWorld s.routing
  let s' := { s with routing }
  match answer with
  | .error e => throw e.unwrapped
  | .ok completion =>
    match ← LogM.attempt (cleanValidateCap W.toLoopWorld S .candidate completion.text) with
    | .error e => agentRefused S k s' e
    | .ok (checked, injectedTop) => agentCandidate W S k s' checked completion.text injectedTop

/-- The loop over `range(max_corrections + 1)`; `none` when it runs out of rounds. -/
def agentRounds (routing : Option SourceRouting) : LoopM (Option SqlGenerationResult) :=
  forRounds (agentRound W S) 0 (S.maxCorrections + 1).toNat ⟨routing, false, 0⟩

/-- **`_attempt_loop`.** -/
def attemptLoop (routing : Option SourceRouting) : LoopM SqlGenerationResult := do
  match ← agentRounds W S routing with
  | some result => return result
  | none => throw (.runtimeError "SQLAgent loop exited unexpectedly")

end Loop

/-! ## The loop's triple -/

variable {W : AgentWorld} {S : LoopSettings}

/-- The cache executes nothing, so fetching executes approved texts only. -/
theorem fetchesApproved_fetchRows : FetchesApproved W.toLoopWorld S (fetchRows W) := by
  intro b sql
  refine (meets_observe (Q := fun _ l => Open W.toLoopWorld S b l ∧ Approved W.toLoopWorld S sql l)
    fun l hl => hl).bind fun cached => ?_
  refine (meets_fromExcept
    (Q := fun _ l => Open W.toLoopWorld S b l ∧ Approved W.toLoopWorld S sql l)
    (fun _ _ _ hl => hl) fun _ _ _ hl => hl.1).bind fun hit => ?_
  cases hit with
  | some data => exact meets_pure fun l hl => hl.1
  | none => exact meets_executeQuery sql

section Triple

variable {k : Nat} {s : LoopState}

theorem meets_raiseOrAgain (hk : (k : Int) ≤ S.maxCorrections) {e : PyError} :
    Meets (RoundRunning W.toLoopWorld S id k s) (raiseOrAgain S k s e)
      (RoundDecided W.toLoopWorld S SqlGenerationResult id k)
      (fun _ => Within W.toLoopWorld S (requestBudget S)) := by
  unfold raiseOrAgain
  split
  · exact meets_throw fun l hl => within_request hk hl.toWithin
  · rename_i hlast
    exact meets_pure fun l hl => roundDecided_again hk hlast hl

/-- **The handlers of the guard** call nothing: a policy rejection is raised. -/
theorem meets_agentRefused (hk : (k : Int) ≤ S.maxCorrections) {e : PyError} :
    Meets (AfterRejection W.toLoopWorld S .candidate
        (loopBudget (k + 1) s.routing s.valueChecked) e)
      (agentRefused S k s e) (RoundDecided W.toLoopWorld S SqlGenerationResult id k)
      (fun _ => Within W.toLoopWorld S (requestBudget S)) := by
  unfold agentRefused
  split
  · exact meets_throw fun l hl => within_request hk hl.toWithin
  · rename_i hpolicy
    split
    · exact (meets_raiseOrAgain hk).pre fun l hl => hl.reopen fun h => hpolicy h.2
    · exact meets_throw fun l hl => within_request hk hl.toWithin

theorem meets_agentExecute (hk : (k : Int) ≤ S.maxCorrections) {sql raw : String}
    {injectedTop : Option Nat} :
    Meets (fun l => RoundRunning W.toLoopWorld S id k s l ∧ Approved W.toLoopWorld S sql l)
      (agentExecute W S k s sql raw injectedTop)
      (RoundDecided W.toLoopWorld S SqlGenerationResult id k)
      (fun _ => Within W.toLoopWorld S (requestBudget S)) := by
  refine (meets_attempt (fetchesApproved_fetchRows _ sql)).bind fun outcome => ?_
  cases outcome with
  | ok data => exact meets_pure fun l hl => within_request hk hl.toWithin
  | error e =>
    dsimp only
    split
    · exact meets_raiseOrAgain hk
    · exact meets_throw fun l hl => within_request hk hl.toWithin

theorem meets_agentCandidate (hk : (k : Int) ≤ S.maxCorrections) {checked raw : String}
    {injectedTop : Option Nat} :
    Meets (fun l => RoundRunning W.toLoopWorld S id k s l ∧ Checked W.toLoopWorld S checked l)
      (agentCandidate W S k s checked raw injectedTop)
      (RoundDecided W.toLoopWorld S SqlGenerationResult id k)
      (fun _ => Within W.toLoopWorld S (requestBudget S)) := by
  refine (meets_respellFilters checked).bind fun sql => ?_
  refine ((meets_filterValueCheck fetchesApproved_fetchRows sql).frame_ok
    (persistent_approved sql)).bind fun (s', corrected) => ?_
  cases corrected with
  | some c => exact meets_pure fun l hl => within_request hk hl.1.toWithin
  | none => exact meets_agentExecute hk

/-- **One attempt** keeps the invariant, or ends within the budget. -/
theorem meets_agentRound (k : Nat) (s : LoopState) :
    Meets (RoundInv W.toLoopWorld S id k s) (agentRound W S k s)
      (RoundDecided W.toLoopWorld S SqlGenerationResult id k)
      (fun _ => Within W.toLoopWorld S (requestBudget S)) := by
  refine Meets.of_pure fun hk => ?_
  refine meets_generateWithSourceFallback.bind fun (answer, routing) => ?_
  dsimp only
  cases answer with
  | error e => exact meets_throw fun l hl => within_request hk hl.toWithin
  | ok completion =>
    refine (meets_attempt (meets_cleanValidateCap .candidate completion.text)).bind
      fun outcome => ?_
    cases outcome with
    | error e => exact meets_agentRefused (s := { s with routing }) hk
    | ok checked => exact meets_agentCandidate (s := { s with routing }) hk

end Triple

end LocalSqlAgent
