import LocalSqlAgent.Lib.PyText
import LocalSqlAgent.Lib.Transition
import Mathlib.Data.List.Nodup

/-! # Feedback on answers

`appdb.feedback`: an analyst flags a turn's answer, an administrator resolves the flag. The table
`turn_feedback` and its statements; which statements run in one transaction is for the modules that
interleave the calls. -/

namespace LocalSqlAgent

/-! ## Rows -/

/-- What the feedback and confirmation calls read of an audit record. -/
structure AuditedTurn where
  /-- `session_id`. -/
  sessionId : String
  /-- `turn_id`. -/
  turnId : String
  /-- `request_id`. -/
  requestId : Option String
  /-- `question`. -/
  question : String
  /-- `config_version_id`. -/
  configVersionId : Option ℕ
  /-- `error_code`. -/
  errorCode : Option String
  /-- `generated_sql`. -/
  generatedSql : Option String
  /-- `guard.verdict`. -/
  verdict : Option String
  /-- `columns`, where the record has the key; its value may be `None`. -/
  columns : Option (Option (List String))
  deriving DecidableEq, Repr

/-- `str.strip` leaves nothing. -/
def blank (s : String) : Bool := strip s.toList = []

/-- `turn_executed_successfully`. -/
def AuditedTurn.executedSuccessfully (r : AuditedTurn) : Bool :=
  if r.errorCode ≠ none ∧ r.errorCode ≠ some "" then false
  else if blank (r.generatedSql.getD "") then false
  else if r.verdict = some "rejected" then false
  else r.columns ≠ some none

/-- `find_record_by_turn`, the newest record first. -/
def findAuditedTurn (log : List AuditedTurn) (sessionId turnId : String) : Option AuditedTurn :=
  log.find? fun r => r.sessionId = sessionId ∧ r.turnId = turnId

/-- A turn whose query ran and returned a result. -/
def auditedTurn : AuditedTurn where
  sessionId := "s1"
  turnId := "t1"
  requestId := some "r1"
  question := "How many orders?"
  configVersionId := none
  errorCode := none
  generatedSql := some "SELECT 1"
  verdict := some "allowed"
  columns := some (some ["n"])

example : auditedTurn.executedSuccessfully = true := by decide

/-- `turn_feedback.status`. -/
inductive FlagStatus where
  | opened
  | resolved
  deriving DecidableEq, Repr

/-- `RESOLUTION_OUTCOMES`. -/
inductive ResolutionOutcome where
  | aliasFix
  | ruleFix
  | goldenCase
  | notADefect
  deriving DecidableEq, Repr

/-- The stored text of an outcome. -/
def ResolutionOutcome.text : ResolutionOutcome → String
  | .aliasFix => "alias_fix"
  | .ruleFix => "rule_fix"
  | .goldenCase => "golden_case"
  | .notADefect => "not_a_defect"

/-- A row of `turn_feedback`. -/
structure Flag where
  /-- The primary key. -/
  feedbackId : ℕ
  /-- The flagged turn's session. -/
  sessionId : String
  /-- The flagged turn. -/
  turnId : String
  /-- The audit record's request. -/
  requestId : Option String
  /-- Who flagged it. -/
  reporterPrincipalId : String
  /-- One of `FEEDBACK_CATEGORIES`. -/
  category : String
  /-- The analyst's note. -/
  note : Option String
  /-- The configuration version of the answer. -/
  configVersionId : Option ℕ
  /-- When it was flagged. -/
  createdAt : String
  /-- Open until an administrator resolves it. -/
  status : FlagStatus
  /-- How it was resolved. -/
  resolutionOutcome : Option ResolutionOutcome
  /-- The administrator's note. -/
  resolutionNote : Option String
  /-- The version a fix was made through. -/
  resolutionConfigVersionId : Option ℕ
  /-- The golden case it became. -/
  resolutionGoldenCaseId : Option String
  /-- Who resolved it. -/
  resolvedBy : Option String
  /-- When. -/
  resolvedAt : Option String
  deriving DecidableEq, Repr

/-- The exceptions, with their messages. -/
inductive FeedbackError where
  | valueError (message : String)
  | turnNotAudited (message : String)
  | notFound (message : String)
  | alreadyResolved (message : String)
  deriving DecidableEq, Repr

/-- The arguments of `resolve_feedback` besides the flag. -/
structure Resolution where
  /-- `outcome`, as passed. -/
  outcome : String
  /-- `actor_principal_id`. -/
  actor : String
  /-- `note`. -/
  note : String
  /-- `config_version_id`. -/
  configVersionId : Option ℕ
  /-- `golden_case_id`. -/
  goldenCaseId : Option String
  deriving DecidableEq, Repr

/-! ## Statements -/

section Statements

variable (repr : String → String)

/-- `repr` of a text column that may be NULL. -/
def reprText : Option String → String
  | none => "None"
  | some s => repr s

/-- `FEEDBACK_CATEGORIES`. -/
def feedbackCategories : List String :=
  ["wrong_number", "different_question", "wrong_filter_or_period", "other"]

/-- `note or None`. -/
def noteOrNone (note : String) : Option String := if note = "" then none else some note

/-- The key the database gives a new row: one past the largest. -/
def nextFeedbackId (flags : List Flag) : ℕ := (flags.map (·.feedbackId)).foldr max 0 + 1

/-- The row `submit_flag` inserts for an audited turn. -/
def newFlag (flags : List Flag) (sessionId turnId : String) (r : AuditedTurn)
    (reporter category note now : String) : Flag where
  feedbackId := nextFeedbackId flags
  sessionId := sessionId
  turnId := turnId
  requestId := r.requestId
  reporterPrincipalId := reporter
  category := category
  note := noteOrNone note
  configVersionId := r.configVersionId
  createdAt := now
  status := .opened
  resolutionOutcome := none
  resolutionNote := none
  resolutionConfigVersionId := none
  resolutionGoldenCaseId := none
  resolvedBy := none
  resolvedAt := none

/-- The `where` clause of `withdraw_open_flags`. -/
def openFlagOf (sessionId turnId reporter : String) (f : Flag) : Bool :=
  f.sessionId = sessionId ∧ f.turnId = turnId ∧ f.reporterPrincipalId = reporter ∧ f.status = .opened

/-- The delete of `withdraw_open_flags`. -/
def withdrawOpenFlags (flags : List Flag) (sessionId turnId reporter : String) : List Flag :=
  flags.filter fun f => ¬ openFlagOf sessionId turnId reporter f

/-- The outcome a text names. -/
def ResolutionOutcome.ofText? (text : String) : Option ResolutionOutcome :=
  [.aliasFix, .ruleFix, .goldenCase, .notADefect].find? fun o => o.text = text

/-- The argument checks of `resolve_feedback`. -/
def resolutionChecks (r : Resolution) : Except FeedbackError ResolutionOutcome :=
  match ResolutionOutcome.ofText? r.outcome with
  | none => .error (.valueError ("outcome must be one of " ++
      "('alias_fix', 'rule_fix', 'golden_case', 'not_a_defect'), got " ++ repr r.outcome))
  | some outcome =>
    if outcome = .notADefect ∧ blank r.note then
      .error (.valueError ("a 'not_a_defect' outcome requires a non-blank note -- recorded " ++
        "with a reason, never silently dropped (spec §3.1)"))
    else .ok outcome

/-- The select of `resolve_feedback` and the checks on the row. -/
def openCheck (flags : List Flag) (feedbackId : ℕ) : Except FeedbackError Unit :=
  match flags.find? fun f => f.feedbackId = feedbackId with
  | none => .error (.notFound ("no feedback row " ++ toString feedbackId))
  | some f =>
    if f.status = .resolved then
      .error (.alreadyResolved ("feedback " ++ toString feedbackId ++ " was already resolved as " ++
        reprText repr (f.resolutionOutcome.map ResolutionOutcome.text) ++ " by " ++
        reprText repr f.resolvedBy ++ " at " ++ reprText repr f.resolvedAt))
    else .ok ()

/-- The values the update writes. -/
def Flag.resolve (r : Resolution) (outcome : ResolutionOutcome) (now : String) (f : Flag) : Flag :=
  { f with
    status := .resolved
    resolutionOutcome := some outcome
    resolutionNote := noteOrNone r.note
    resolutionConfigVersionId := r.configVersionId
    resolutionGoldenCaseId := r.goldenCaseId
    resolvedBy := some r.actor
    resolvedAt := some now }

/-- The update of `resolve_feedback`: its condition is the id alone. -/
def resolveFlag (flags : List Flag) (feedbackId : ℕ) (r : Resolution) (outcome : ResolutionOutcome)
    (now : String) : List Flag :=
  flags.map fun f => if f.feedbackId = feedbackId then f.resolve r outcome now else f

/-- **`resolve_feedback`**, its statements in a row: the table it leaves. -/
def resolveFeedback (flags : List Flag) (feedbackId : ℕ) (r : Resolution) (now : String) :
    Except FeedbackError (List Flag) :=
  match resolutionChecks repr r with
  | .error e => .error e
  | .ok outcome =>
    match openCheck repr flags feedbackId with
    | .error e => .error e
    | .ok () => .ok (resolveFlag flags feedbackId r outcome now)

end Statements

/-! ## Facts about the statements -/

variable {flags : List Flag} {feedbackId : ℕ} {r : Resolution} {outcome : ResolutionOutcome} {now : String}

/-- A new key is larger than every key. -/
theorem nextFeedbackId_fresh (flags : List Flag) : nextFeedbackId flags ∉ flags.map (·.feedbackId) := by
  have hle : ∀ n ∈ flags.map (·.feedbackId), n ≤ (flags.map (·.feedbackId)).foldr max 0 := by
    generalize flags.map (·.feedbackId) = ids
    induction ids with
    | nil => exact nofun
    | cons id ids ih =>
      intro n hn
      rw [List.foldr_cons]
      obtain rfl | hmem := List.mem_cons.mp hn
      · exact Nat.le_max_left _ _
      · exact Nat.le_trans (ih n hmem) (Nat.le_max_right _ _)
  intro hmem
  have hmax := hle _ hmem
  unfold nextFeedbackId at hmax
  omega

theorem nodup_append_newFlag {sessionId turnId : String} {t : AuditedTurn} {reporter category note : String}
    (h : (flags.map (·.feedbackId)).Nodup) :
    ((flags ++ [newFlag flags sessionId turnId t reporter category note now]).map (·.feedbackId)).Nodup := by
  rw [List.map_append, List.map_singleton]
  refine h.append (List.nodup_singleton _) ?_
  rw [List.disjoint_singleton]
  exact nextFeedbackId_fresh flags

theorem nodup_withdrawOpenFlags {sessionId turnId reporter : String}
    (h : (flags.map (·.feedbackId)).Nodup) :
    ((withdrawOpenFlags flags sessionId turnId reporter).map (·.feedbackId)).Nodup :=
  h.sublist (List.filter_sublist.map _)

/-- Resolving keeps the keys. -/
theorem map_feedbackId_resolveFlag :
    (resolveFlag flags feedbackId r outcome now).map (·.feedbackId) = flags.map (·.feedbackId) := by
  unfold resolveFlag
  rw [List.map_map]
  apply List.map_congr_left
  intro f _
  rw [Function.comp_apply]
  split <;> rfl

/-- A flag of another key is left as it is. -/
theorem mem_resolveFlag_of_ne {f : Flag} (h : f ∈ flags) (hne : f.feedbackId ≠ feedbackId) :
    f ∈ resolveFlag flags feedbackId r outcome now :=
  List.mem_map.mpr ⟨f, h, if_neg hne⟩

/-- Withdrawing takes open flags only. -/
theorem mem_withdrawOpenFlags {sessionId turnId reporter : String} {f : Flag} :
    f ∈ withdrawOpenFlags flags sessionId turnId reporter ↔
      f ∈ flags ∧ openFlagOf sessionId turnId reporter f = false := by
  unfold withdrawOpenFlags
  rw [List.mem_filter, decide_eq_true_eq, Bool.not_eq_true]

end LocalSqlAgent
