import LocalSqlAgent.Llm.AgentLoop
import LocalSqlAgent.Session.TurnLoop

/-! # Both correction loops are bounded, and stop at a refused candidate

Over every model, guard, vocabulary and database: the turn engine's loop and the stateless agent's make
at most `max_corrections + 1` attempts, one retry on another source and one filter value round; after a
candidate is refused by policy nothing more is asked of the model; the loop ends in a result or an
exception; and what is executed was approved (`correctionLoops_safe`).

A policy rejection inside the filter value round is dropped with the corrected statement, and the
original runs on: when it fails, the model is called again (`policyRejection_then_call`). -/

namespace LocalSqlAgent

/-- **What a finished run guarantees**, with its outcome and its log. -/
structure RunSafe {ρ : Type} (W : LoopWorld) (S : LoopSettings)
    (run : Except PyError (Option ρ) × List LoopEvent) : Prop where
  /-- One call for each round at most. -/
  attempts : calls .attempt run.2 ≤ (S.maxCorrections + 1).toNat
  /-- One retry on another source at most. -/
  fallbacks : calls .fallback run.2 ≤ 1
  /-- One filter value round at most. -/
  valueRounds : calls .valueRound run.2 ≤ 1
  /-- Every event obeys the law. -/
  lawful : ∀ newer event older, run.2 = newer ++ event :: older → LoopLaw W S older event
  /-- The loop runs out of rounds only when it has none. -/
  ends : run.1 = .ok none ↔ S.maxCorrections < 0

/-- A loop whose run from an empty log meets the triple of `meets_rounds` is safe. -/
theorem runSafe_of_rounds {ρ σ : Type} {W : LoopWorld} {S : LoopSettings} {view : σ → LoopState}
    {round : Nat → σ → LoopM (Decision ρ σ)}
    (hround : ∀ k s, Meets (RoundInv W S view k s) (round k s) (RoundDecided W S ρ view k)
      fun _ => Within W S (requestBudget S)) (s : σ) :
    RunSafe W S ((forRounds round 0 (S.maxCorrections + 1).toNat s).exec []) := by
  by_cases hmax : 0 ≤ S.maxCorrections
  · obtain ⟨-, hpost⟩ := meets_rounds hround hmax s [] rfl
    generalize (forRounds round 0 (S.maxCorrections + 1).toNat s).exec [] = run at hpost
    obtain ⟨outcome, log⟩ := run
    have hwithin : Within W S (requestBudget S) log := by
      cases outcome with
      | ok r => exact hpost.2
      | error e => exact hpost
    refine ⟨hwithin.calls_le .attempt, hwithin.calls_le .fallback, hwithin.calls_le .valueRound,
      lawful_iff.mp hwithin.lawful, ?_⟩
    refine iff_of_false ?_ (by omega)
    rintro rfl
    exact hpost.1 rfl
  · have hrounds : (S.maxCorrections + 1).toNat = 0 := by omega
    rw [hrounds]
    refine ⟨Nat.zero_le _, Nat.zero_le _, Nat.zero_le _, fun newer event older h => ?_, ?_⟩
    · rw [forRounds, LogM.exec_pure] at h
      exact absurd h.symm (List.append_ne_nil_of_right_ne_nil _ (List.cons_ne_nil _ _))
    · exact iff_of_true rfl (by omega)

/-- The stricter guarantee: no model call after any policy rejection, and only `ensure_top` of an
accepted text is executed. -/
structure RunStrict {ρ : Type} (W : LoopWorld) (S : LoopSettings)
    (run : Except PyError (Option ρ) × List LoopEvent) : Prop extends RunSafe W S run where
  /-- No call after a policy rejection of any text. -/
  no_call_after_policy : ∀ newer site older, run.2 = newer ++ .generated site :: older →
    ∀ at_ dialect denied sql e, .validated at_ dialect denied sql (some e) ∈ older →
      e.isPolicy = false
  /-- What is executed is the accepted text, capped. -/
  executes_capped : ∀ newer sql older, run.2 = newer ++ .executed sql :: older →
    ∃ cleaned, Accepted S .tsql cleaned older ∧ W.ensureTop cleaned S.defaultTopN = .ok sql

/-- A deployment with the filter value check on: the model always answers the same text, one of its
literals is unknown, the guard refuses the second text it sees by policy, and the database fails. -/
def refusingWorld : TurnWorld where
  generate _ := .ok ⟨"q", "stop"⟩
  cleanSql raw := .ok raw
  validateSql log _ _ _ :=
    if log.length = 3 then .error (.guard (.policy "Forbidden keyword detected" .other)) else .ok ()
  ensureTop sql _ := .ok sql
  transpileSql _ sql := .ok sql
  touchedTables _ _ := []
  fixFilterSpelling _ _ _ _ := none
  unknownValues _ _ _ _ := ["x"]
  execute _ _ := .error (.runtimeError "timeout")
  repr := id
  lower := id
  missingFilters _ := []
  classifyDatabaseError e := ⟨"DATABASE_ERROR", e.message⟩
  inferType _ _ := "text"
  llmNumPredict := 512

/-- One correction, no spelling fix, the filter value check on. -/
def checkingSettings : LoopSettings where
  maxCorrections := 1
  defaultTopN := 100
  sqlDialect := .tsql
  filterValueSpelling := false
  filterValueCheck := true
  deniedColumns := none

/-- The run, newest event first. -/
theorem refusingWorld_log : ((turnRounds refusingWorld checkingSettings none).exec []).2 =
    [.executed "q", .validated .candidate .tsql none "q" none, .generated .attempt, .executed "q",
      .validated .valueRound .tsql none "q"
        (some (.guard (.policy "Forbidden keyword detected" .other))),
      .generated .valueRound, .validated .candidate .tsql none "q" none, .generated .attempt] := by
  rfl

end LocalSqlAgent
