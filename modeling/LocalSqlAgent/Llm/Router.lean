import Mathlib.Algebra.Order.Ring.Rat
import LocalSqlAgent.Llm.CorrectionSteps
import LocalSqlAgent.PromptEngine.Builder

/-! # The model router

`LLMRouter` of `llm.router`: each task has a chain of backends, tried in order until one answers. A backend
whose endpoint is not trusted may be sent a prompt only when the deployment opted in, and then an audit
record is written first.

* **`callChain`**: `_call_chain`, over a log of what leaves the router. What a backend answers and how long
  it takes is a function of the log so far.
* **`Permitted`**: the data-governance rule, as what may follow what in the log.
* **`lawful_callChain`**: every request keeps it.
* **`FailsThrough`**: the backends of a list were tried one after another and none decided.
* **`callChain_decides`**: the chain is decided by its first backend that does not fail. -/

namespace LocalSqlAgent

/-! ## Requests -/

/-- `TaskType`. -/
inductive TaskType where
  | sqlGeneration
  | interpretation
  | assumptionExtraction
  deriving DecidableEq

/-- `TaskType.value`. -/
def TaskType.value : TaskType → String
  | sqlGeneration => "sql_generation"
  | interpretation => "interpretation"
  | assumptionExtraction => "assumption_extraction"

/-- `repr` of a `TaskType`. -/
def TaskType.repr : TaskType → String
  | sqlGeneration => "<TaskType.SQL_GENERATION: 'sql_generation'>"
  | interpretation => "<TaskType.INTERPRETATION: 'interpretation'>"
  | assumptionExtraction => "<TaskType.ASSUMPTION_EXTRACTION: 'assumption_extraction'>"

/-- `LLMBackend`, as the router reads it. -/
structure Backend where
  /-- `name`. -/
  name : String
  /-- `is_trusted_backend`. -/
  trusted : Bool
  deriving DecidableEq

/-- What leaves the router. -/
inductive RouterEvent where
  /-- `_audit_remote_use`: the record names the backend, the task and the length of the prompt. -/
  | audited (backend : Backend) (task : TaskType) (chars : ℕ)
  /-- A backend is sent a prompt. -/
  | called (backend : Backend) (segments : PromptSegments)
  /-- `prefix_activity.note_use`. -/
  | noted (staticPrefix : String)

/-- **What the backends do**: at every call anew, an answer of type `α` or an exception, after some seconds. -/
structure RouterWorld (α : Type) where
  /-- The call of a backend. -/
  answer : List RouterEvent → Backend → Except RouterError α
  /-- What `time.perf_counter` measures of it. -/
  elapsed : List RouterEvent → Backend → ℚ
  /-- `f"{seconds:.1f}"`. -/
  seconds : ℚ → String
  /-- `repr` of a string. -/
  repr : String → String

/-- `LLMRouter`, with the setting it reads. -/
structure LlmRouter where
  /-- `chains`. -/
  chains : TaskType → List Backend
  /-- `default_chain`. -/
  defaultChain : List Backend
  /-- `budgets`. -/
  budgets : TaskType → Option ℚ
  /-- `settings.llm_allow_remote`. -/
  llmAllowRemote : Bool

namespace LlmRouter

/-- A program of the router. -/
abbrev RouterM : Type → Type := LogM RouterEvent RouterError

variable {α : Type} (R : LlmRouter) (W : RouterWorld α)

/-! ## The chain -/

/-- `self._chains.get(task) or self._default_chain`. -/
def chainOf (task : TaskType) : List Backend :=
  if R.chains task = [] then R.defaultChain else R.chains task

/-- The task has no chain. -/
def noBackend (task : TaskType) : RouterError where
  error := .runtimeError ("No backend configured for task " ++ task.repr ++ " and no default_chain set")
  cause := none

/-- `_chain_for`. -/
def chainFor (task : TaskType) : Except RouterError (List Backend) :=
  if R.chainOf task = [] then .error (noBackend task) else .ok (R.chainOf task)

/-- `RemoteProviderNotAllowedError`. -/
def remoteNotAllowed (backend : Backend) (task : TaskType) : RouterError where
  error := .runtimeError ("Task " ++ W.repr task.value ++ " would route to remote provider " ++
    W.repr backend.name ++ ", but Settings.llm_allow_remote is False. Set LLM_ALLOW_REMOTE=true to " ++
    "explicitly opt this deployment into sending schema/business data to a hosted LLM provider.")
  cause := none

/-- The governance gate lets a backend through. -/
def Lets (backend : Backend) : Prop := backend.trusted = true ∨ R.llmAllowRemote = true

instance (backend : Backend) : Decidable (R.Lets backend) := inferInstanceAs (Decidable (_ ∨ _))

/-- `_governance_check`. -/
def governanceCheck (backend : Backend) (task : TaskType) (segments : PromptSegments) : RouterM Unit :=
  if backend.trusted then pure ()
  else if R.llmAllowRemote then LogM.record (.audited backend task segments.flatten.length)
  else throw (remoteNotAllowed W backend task)

/-- The `TimeoutError` of an answer that came too late. -/
def tooLate (backend : Backend) (task : TaskType) (elapsed budget : ℚ) : PyError :=
  .timeoutError ("backend " ++ W.repr backend.name ++ " exceeded latency budget (" ++ W.seconds elapsed ++
    "s > " ++ W.seconds budget ++ "s) for task=" ++ task.value)

/-- `_is_out_of_scope`. -/
def isSentinel (e : PyError) : Bool := e.isValueError && e.message = "OUT_OF_SCOPE"

/-- `_note_prefix_use`. -/
def notePrefixUse (index : ℕ) (segments : PromptSegments) : RouterM Unit :=
  if index = 0 ∧ segments.staticPrefix ≠ "" then LogM.record (.noted segments.staticPrefix) else pure ()

/-- The failure of a whole chain, the last exception as its cause. -/
def everyFailed (task : TaskType) (last : Option PyError) : RouterError where
  error := .runtimeError ("Every backend in the chain failed for task=" ++ task.value ++ ": " ++
    (last.map PyError.message).getD "None")
  cause := last

/-- How a call went. -/
inductive Attempt (α : Type) where
  /-- `OUT_OF_SCOPE`. -/
  | declined (e : RouterError)
  /-- Any other exception, or an answer after the budget. -/
  | failed (e : PyError)
  /-- An answer in time. -/
  | answered (result : α)

/-- What the router makes of a call. -/
def judge (backend : Backend) (task : TaskType) (answer : Except RouterError α) (elapsed : ℚ) : Attempt α :=
  match answer with
  | .error e => if isSentinel e.error then .declined e else .failed e.error
  | .ok result =>
    match R.budgets task with
    | none => .answered result
    | some budget => if budget < elapsed then .failed (tooLate W backend task elapsed budget) else .answered result

/-- One call. -/
def tryBackend (backend : Backend) (task : TaskType) (segments : PromptSegments) : RouterM (Attempt α) := do
  let attempt ← LogM.observe fun log =>
    R.judge W backend task (W.answer log backend) (W.elapsed log backend)
  LogM.record (.called backend segments)
  return attempt

/-- **`_call_chain`** from a position on: the result, the backend and whether it was a fallback. -/
def callFrom (task : TaskType) (segments : PromptSegments) :
    ℕ → Option PyError → List Backend → RouterM (α × Backend × Bool)
  | _, last, [] => throw (everyFailed task last)
  | index, _, backend :: rest => do
    governanceCheck R W backend task segments
    match ← tryBackend R W backend task segments with
    | .declined e => do
      notePrefixUse index segments
      throw e
    | .failed e => callFrom task segments (index + 1) (some e) rest
    | .answered result => do
      notePrefixUse index segments
      return (result, backend, decide (0 < index))

/-- `_call_chain`. -/
def callChain (task : TaskType) (segments : PromptSegments) : RouterM (α × Backend × Bool) := do
  let chain ← LogM.fromExcept (R.chainFor task)
  callFrom R W task segments 0 none chain

/-! ## One backend -/

variable {R W} {task : TaskType} {segments : PromptSegments} {backend : Backend} {log : List RouterEvent}
  {index : ℕ} {last : Option PyError} {rest : List Backend}

/-- The log once the gate let a backend through. -/
def gated (task : TaskType) (segments : PromptSegments) (backend : Backend) (log : List RouterEvent) :
    List RouterEvent :=
  if backend.trusted then log else .audited backend task segments.flatten.length :: log

/-- The log after a call. -/
def sent (task : TaskType) (segments : PromptSegments) (backend : Backend) (log : List RouterEvent) :
    List RouterEvent :=
  .called backend segments :: gated task segments backend log

/-- The log once the use of a prefix is noted. -/
def withNote (index : ℕ) (segments : PromptSegments) (log : List RouterEvent) : List RouterEvent :=
  if index = 0 ∧ segments.staticPrefix ≠ "" then .noted segments.staticPrefix :: log else log

variable (R W) in
/-- How the call of a backend goes from a log on. -/
def attemptAt (task : TaskType) (segments : PromptSegments) (backend : Backend) (log : List RouterEvent) :
    Attempt α :=
  R.judge W backend task (W.answer (gated task segments backend log) backend)
    (W.elapsed (gated task segments backend log) backend)

theorem exec_governanceCheck (hlets : R.Lets backend) :
    (R.governanceCheck W backend task segments).exec log = (.ok (), gated task segments backend log) := by
  unfold governanceCheck gated
  by_cases htrusted : backend.trusted = true
  · rw [if_pos htrusted, if_pos htrusted]
    rfl
  · rw [if_neg htrusted, if_neg htrusted, if_pos (hlets.resolve_left htrusted)]
    rfl

theorem exec_governanceCheck_refused (hlets : ¬ R.Lets backend) :
    (R.governanceCheck W backend task segments).exec log =
      (.error (remoteNotAllowed W backend task), log) := by
  obtain ⟨htrusted, hremote⟩ := not_or.mp hlets
  rw [governanceCheck, if_neg htrusted, if_neg hremote]
  rfl

theorem exec_tryBackend : (R.tryBackend W backend task segments).exec (gated task segments backend log) =
    (.ok (R.attemptAt W task segments backend log), sent task segments backend log) := rfl

theorem exec_notePrefixUse :
    (notePrefixUse index segments).exec log = (.ok (), withNote index segments log) := by
  unfold notePrefixUse withNote
  split
  · rfl
  · rfl

/-- The gate stops a backend: nothing more happens. -/
theorem exec_callFrom_refused (hlets : ¬ R.Lets backend) :
    (R.callFrom W task segments index last (backend :: rest)).exec log =
      (.error (remoteNotAllowed W backend task), log) := by
  rw [callFrom, LogM.exec_bind, exec_governanceCheck_refused hlets]

/-- A backend that fails leaves the question to the rest of the chain. -/
theorem exec_callFrom_failed (hlets : R.Lets backend) {e : PyError}
    (hfailed : R.attemptAt W task segments backend log = .failed e) :
    (R.callFrom W task segments index last (backend :: rest)).exec log =
      (R.callFrom W task segments (index + 1) (some e) rest).exec (sent task segments backend log) := by
  rw [callFrom, LogM.exec_bind, exec_governanceCheck hlets, LogM.exec_bind, exec_tryBackend, hfailed]

/-- A backend that declines ends the request. -/
theorem exec_callFrom_declined (hlets : R.Lets backend) {e : RouterError}
    (hdeclined : R.attemptAt W task segments backend log = .declined e) :
    (R.callFrom W task segments index last (backend :: rest)).exec log =
      (.error e, withNote index segments (sent task segments backend log)) := by
  rw [callFrom, LogM.exec_bind, exec_governanceCheck hlets, LogM.exec_bind, exec_tryBackend, hdeclined]
  dsimp only
  rw [LogM.exec_bind, exec_notePrefixUse]
  rfl

/-- A backend that answers in time ends the request. -/
theorem exec_callFrom_answered (hlets : R.Lets backend) {result : α}
    (hanswered : R.attemptAt W task segments backend log = .answered result) :
    (R.callFrom W task segments index last (backend :: rest)).exec log =
      (.ok (result, backend, decide (0 < index)), withNote index segments (sent task segments backend log)) := by
  rw [callFrom, LogM.exec_bind, exec_governanceCheck hlets, LogM.exec_bind, exec_tryBackend, hanswered]
  dsimp only
  rw [LogM.exec_bind, exec_notePrefixUse]
  rfl

/-! ## Data governance -/

variable (R) in
/-- **What may happen after what**: a prompt goes to a trusted backend, or, where remote use is allowed, to the
one the audit record just before is about; only remote use is audited; and a prefix is noted right after the
call that carried it. -/
def Permitted (before : List RouterEvent) : RouterEvent → Prop
  | .called backend segments => backend.trusted = true ∨ R.llmAllowRemote = true ∧
      ∃ task, before.head? = some (.audited backend task segments.flatten.length)
  | .audited backend _ _ => backend.trusted = false ∧ R.llmAllowRemote = true
  | .noted staticPrefix => staticPrefix ≠ "" ∧ ∃ backend segments,
      before.head? = some (.called backend segments) ∧ segments.staticPrefix = staticPrefix

theorem lawful_gated (hlets : R.Lets backend) (hlog : Lawful R.Permitted log) :
    Lawful R.Permitted (gated task segments backend log) := by
  unfold gated
  split
  · exact hlog
  · rename_i htrusted
    exact ⟨⟨Bool.not_eq_true _ ▸ htrusted, hlets.resolve_left htrusted⟩, hlog⟩

theorem lawful_sent (hlets : R.Lets backend) (hlog : Lawful R.Permitted log) :
    Lawful R.Permitted (sent task segments backend log) := by
  refine ⟨?_, lawful_gated hlets hlog⟩
  by_cases htrusted : backend.trusted = true
  · exact .inl htrusted
  · refine .inr ⟨hlets.resolve_left htrusted, task, ?_⟩
    rw [gated, if_neg htrusted, List.head?_cons]

theorem lawful_withNote (hlets : R.Lets backend) (hlog : Lawful R.Permitted log) :
    Lawful R.Permitted (withNote index segments (sent task segments backend log)) := by
  unfold withNote
  split
  · rename_i hnoted
    exact ⟨⟨hnoted.2, backend, segments, rfl, rfl⟩, lawful_sent hlets hlog⟩
  · exact lawful_sent hlets hlog

/-- **A chain keeps the rule**, wherever it stops. -/
theorem lawful_callFrom {chain : List Backend} (hlog : Lawful R.Permitted log) :
    Lawful R.Permitted ((R.callFrom W task segments index last chain).exec log).2 := by
  induction chain generalizing index last log with
  | nil => exact hlog
  | cons backend rest ih =>
    by_cases hlets : R.Lets backend
    · cases hattempt : R.attemptAt W task segments backend log with
      | declined e =>
        rw [exec_callFrom_declined hlets hattempt]
        exact lawful_withNote hlets hlog
      | failed e =>
        rw [exec_callFrom_failed hlets hattempt]
        exact ih (lawful_sent hlets hlog)
      | answered result =>
        rw [exec_callFrom_answered hlets hattempt]
        exact lawful_withNote hlets hlog
    · rw [exec_callFrom_refused hlets]
      exact hlog

theorem exec_callChain_empty (hempty : R.chainOf task = []) :
    (R.callChain W task segments).exec log = (.error (noBackend task), log) := by
  rw [callChain, chainFor, if_pos hempty]
  rfl

theorem exec_callChain (hchain : R.chainOf task ≠ []) :
    (R.callChain W task segments).exec log = (R.callFrom W task segments 0 none (R.chainOf task)).exec log := by
  rw [callChain, chainFor, if_neg hchain]
  rfl

/-- **A request keeps the rule.** -/
theorem lawful_callChain (hlog : Lawful R.Permitted log) :
    Lawful R.Permitted ((R.callChain W task segments).exec log).2 := by
  by_cases hchain : R.chainOf task = []
  · rw [exec_callChain_empty hchain]
    exact hlog
  · rw [exec_callChain hchain]
    exact lawful_callFrom hlog

/-! ## Who answers -/

variable (R W) in
/-- **The backends of a list were tried in turn and none decided**: each got through the gate, got the prompt,
and raised something else than the sentinel or answered too late. -/
inductive FailsThrough (task : TaskType) (segments : PromptSegments) :
    List RouterEvent → List Backend → List RouterEvent → Prop
  | nil (log : List RouterEvent) : FailsThrough task segments log [] log
  | cons {log log' : List RouterEvent} {backend : Backend} {rest : List Backend} {e : PyError} :
      R.Lets backend → R.attemptAt W task segments backend log = .failed e →
      FailsThrough task segments (sent task segments backend log) rest log' →
      FailsThrough task segments log (backend :: rest) log'

/-- What failed is not the sentinel. -/
theorem not_sentinel_of_failed {e : PyError} (h : R.attemptAt W task segments backend log = .failed e) :
    isSentinel e = false := by
  unfold attemptAt judge at h
  split at h
  · split at h
    · cases h
    · cases h
      exact Bool.not_eq_true _ ▸ ‹_›
  · split at h
    · cases h
    · split at h
      · cases h
        rfl
      · cases h

/-- What was declined is the sentinel. -/
theorem sentinel_of_declined {e : RouterError} (h : R.attemptAt W task segments backend log = .declined e) :
    isSentinel e.error = true := by
  unfold attemptAt judge at h
  split at h
  · split at h
    · cases h
      assumption
    · cases h
  · split at h
    · cases h
    · split at h
      · cases h
      · cases h

/-- **Behind backends that failed** the rest of the chain is asked, with the last of their exceptions. -/
theorem exec_callFrom_append {front : List Backend} {log' : List RouterEvent}
    (h : R.FailsThrough W task segments log front log') (index : Nat) (last : Option PyError)
    (hlast : last.all (fun e => !isSentinel e) = true) :
    ∃ last', last'.all (fun e => !isSentinel e) = true ∧ ∀ rest,
      (R.callFrom W task segments index last (front ++ rest)).exec log =
        (R.callFrom W task segments (index + front.length) last' rest).exec log' := by
  induction h generalizing index last with
  | nil log => exact ⟨last, hlast, fun rest => rfl⟩
  | @cons log log' backend front e hlets hfailed _ ih =>
    have he : (some e).all (fun e => !isSentinel e) = true := by
      simp [not_sentinel_of_failed hfailed]
    obtain ⟨last', hlast', hexec⟩ := ih (index + 1) _ he
    refine ⟨last', hlast', fun rest => ?_⟩
    rw [List.cons_append, exec_callFrom_failed hlets hfailed, hexec, List.length_cons,
      Nat.add_comm front.length, Nat.add_assoc]

/-- **Where a chain stops**: behind all of it, or at a backend that is refused or does not fail. -/
theorem exists_stop (R : LlmRouter) (W : RouterWorld α) (task : TaskType) (segments : PromptSegments)
    (chain : List Backend) (log : List RouterEvent) :
    ∃ front rest log', chain = front ++ rest ∧ R.FailsThrough W task segments log front log' ∧
      ∀ backend ∈ rest.head?, R.Lets backend → ∀ e, R.attemptAt W task segments backend log' ≠ .failed e := by
  induction chain generalizing log with
  | nil => exact ⟨[], [], log, rfl, .nil log, by simp⟩
  | cons backend rest ih =>
    by_cases hfails : R.Lets backend ∧ ∃ e, R.attemptAt W task segments backend log = .failed e
    · obtain ⟨hlets, e, hfailed⟩ := hfails
      obtain ⟨front, rest', log', rfl, hfront, hstop⟩ := ih (sent task segments backend log)
      exact ⟨backend :: front, rest', log', rfl, .cons hlets hfailed hfront, hstop⟩
    · refine ⟨[], backend :: rest, log, rfl, .nil log, ?_⟩
      rintro b hb hlets e hfailed
      cases hb
      exact hfails ⟨hlets, e, hfailed⟩

variable (R W) in
/-- The backend that decides a request: those in front of it in the chain fail, and it is asked and does not. -/
structure DecidedBy (task : TaskType) (segments : PromptSegments) (log : List RouterEvent)
    (front : List Backend) (backend : Backend) (attempt : Attempt α) : Prop where
  /-- Its place in the chain. -/
  inChain : ∃ rest, R.chainOf task = front ++ backend :: rest
  /-- It is reached, let through and goes so. -/
  reached : ∃ log', R.FailsThrough W task segments log front log' ∧ R.Lets backend ∧
    R.attemptAt W task segments backend log' = attempt

/-- A request comes down to the backend that decides it. -/
theorem DecidedBy.exec_eq {front : List Backend} {attempt : Attempt α}
    (h : R.DecidedBy W task segments log front backend attempt) : ∃ rest log' last,
      R.Lets backend ∧ R.attemptAt W task segments backend log' = attempt ∧
        (R.callChain W task segments).exec log =
          (R.callFrom W task segments front.length last (backend :: rest)).exec log' := by
  obtain ⟨⟨rest, hchain⟩, log', hfails, hlets, hattempt⟩ := h
  obtain ⟨last, -, hexec⟩ := exec_callFrom_append hfails 0 none rfl
  refine ⟨rest, log', last, hlets, hattempt, ?_⟩
  rw [exec_callChain (by simp [hchain]), hchain, hexec, Nat.zero_add]

/-- **How a request ends**: with a failure of the router's own, or as the backend that decides it went. -/
theorem callChain_ends (R : LlmRouter) (W : RouterWorld α) (task : TaskType) (segments : PromptSegments)
    (log : List RouterEvent) :
    (∃ e, ((R.callChain W task segments).exec log).1 = .error e ∧
        isSentinel e.unwrapped = false ∧ isSentinel e.error = false) ∨
      (∃ front backend e, R.DecidedBy W task segments log front backend (.declined e) ∧
        ((R.callChain W task segments).exec log).1 = .error e) ∨
      ∃ front backend result, R.DecidedBy W task segments log front backend (.answered result) ∧
        ((R.callChain W task segments).exec log).1 = .ok (result, backend, decide (front ≠ [])) := by
  by_cases hchain : R.chainOf task = []
  · refine .inl ⟨noBackend task, ?_, rfl, rfl⟩
    rw [exec_callChain_empty hchain]
  · obtain ⟨front, rest, log', hsplit, hfails, hstop⟩ := exists_stop R W task segments
      (R.chainOf task) log
    obtain ⟨last, hlast, hexec⟩ := exec_callFrom_append hfails 0 none rfl
    rw [exec_callChain hchain, hsplit, hexec]
    cases rest with
    | nil =>
      refine .inl ⟨everyFailed task last, rfl, ?_, rfl⟩
      cases last with
      | none => rfl
      | some e =>
        change isSentinel e = false
        simpa using hlast
    | cons backend rest =>
      by_cases hlets : R.Lets backend
      · have hreached : ∀ attempt, R.attemptAt W task segments backend log' = attempt →
            R.DecidedBy W task segments log front backend attempt :=
          fun attempt h => ⟨⟨rest, hsplit⟩, log', hfails, hlets, h⟩
        cases hattempt : R.attemptAt W task segments backend log' with
        | declined e =>
          refine .inr (.inl ⟨front, backend, e, hreached _ hattempt, ?_⟩)
          rw [exec_callFrom_declined hlets hattempt]
        | failed e => exact absurd hattempt (hstop backend rfl hlets e)
        | answered result =>
          refine .inr (.inr ⟨front, backend, result, hreached _ hattempt, ?_⟩)
          rw [exec_callFrom_answered hlets hattempt]
          simp [List.length_pos_iff]
      · refine .inl ⟨remoteNotAllowed W backend task, ?_, rfl, rfl⟩
        rw [exec_callFrom_refused hlets]

end LlmRouter

end LocalSqlAgent
