import LocalSqlAgent.Llm.LoopSafety

/-! # Where the rows of a result come from

The stateless agent's loop ends with the fetch of the rows it returns: the last event of its log is the
execution that returned them, or the statement cache answered for it after that log
(`exec_agentRounds`). -/

namespace LocalSqlAgent

variable {W : AgentWorld} {S : LoopSettings}

/-- **Rows fetched last**: the database returned them for the statement executed last, or the statement cache
did at the end of the log. -/
def FetchedLast (W : AgentWorld) (sql : String) (data : DataFrame) (log : List LoopEvent) : Prop :=
  (∃ older, log = .executed sql :: older ∧ W.execute older sql = .ok data) ∨
    W.sqlCacheLookup log sql = .ok (some data)

theorem exec_fetchRows {sql : String} {data : DataFrame} {log log' : List LoopEvent}
    (h : (fetchRows W sql).exec log = (.ok data, log')) : FetchedLast W sql data log' := by
  unfold fetchRows at h
  obtain ⟨cached, _, hcached, h⟩ := LogM.exec_bind_ok h
  cases hcached
  obtain ⟨hit, _, hhit, h⟩ := LogM.exec_bind_ok h
  obtain ⟨hlookup, rfl⟩ := Prod.mk.inj hhit
  cases hit with
  | some rows =>
    cases h
    exact .inr hlookup
  | none =>
    unfold executeQuery at h
    obtain ⟨answer, _, hanswer, h⟩ := LogM.exec_bind_ok h
    cases hanswer
    obtain ⟨_, _, hrecord, h⟩ := LogM.exec_bind_ok h
    cases hrecord
    obtain ⟨hexecute, rfl⟩ := Prod.mk.inj h
    exact .inl ⟨log, rfl, hexecute⟩

/-- What a value round runs in place of the statement is fetched last. -/
theorem exec_correctedStatement {acceptable : String → Except PyError Unit} {c : Corrected}
    {log log' : List LoopEvent}
    (h : (correctedStatement W.toLoopWorld S acceptable (fetchRows W)).exec log = (.ok c, log')) :
    FetchedLast W c.sql c.data log' := by
  unfold correctedStatement at h
  obtain ⟨answer, _, -, h⟩ := LogM.exec_bind_ok h
  cases answer with
  | error e => cases h
  | ok completion =>
    obtain ⟨⟨checked, injectedTop⟩, _, -, h⟩ := LogM.exec_bind_ok h
    obtain ⟨sql, _, -, h⟩ := LogM.exec_bind_ok h
    obtain ⟨unknown, _, -, h⟩ := LogM.exec_bind_ok h
    split at h
    · cases h
    · obtain ⟨_, _, -, h⟩ := LogM.exec_bind_ok h
      obtain ⟨data, _, hfetch, h⟩ := LogM.exec_bind_ok h
      cases h
      exact exec_fetchRows hfetch

theorem exec_filterValueCheck {acceptable : String → Except PyError Unit} {s s' : LoopState} {sql : String}
    {c : Corrected} {log log' : List LoopEvent}
    (h : (filterValueCheck W.toLoopWorld S acceptable (fetchRows W) s sql).exec log = (.ok (s', some c), log')) :
    FetchedLast W c.sql c.data log' := by
  unfold filterValueCheck at h
  split at h
  · obtain ⟨round, _, hround, h⟩ := LogM.exec_bind_ok h
    obtain ⟨houtcome, rfl⟩ := Prod.mk.inj h
    obtain ⟨-, hexecuted⟩ := Prod.mk.inj (Except.ok.inj houtcome)
    unfold filterValueRound at hround
    obtain ⟨unknown, _, -, hround⟩ := LogM.exec_bind_ok hround
    split at hround
    · cases hround
      cases hexecuted
    · rw [LogM.exec_attempt_bind] at hround
      generalize hrun : (correctedStatement W.toLoopWorld S acceptable (fetchRows W)).exec _ = run at hround
      obtain ⟨outcome, log₂⟩ := run
      cases outcome with
      | ok corrected =>
        cases hround
        cases hexecuted
        exact exec_correctedStatement hrun
      | error e =>
        cases hround
        cases hexecuted
  · cases h

/-- **A round that leaves** leaves with what was fetched last. -/
theorem exec_agentRound {k : ℕ} {s : LoopState} {result : SqlGenerationResult} {log log' : List LoopEvent}
    (h : (agentRound W S k s).exec log = (.ok (.leave result), log')) :
    FetchedLast W result.sql result.data log' := by
  have hagain : ∀ {e s l}, (raiseOrAgain S k s e).exec l ≠ (.ok (.leave result), log') := by
    intro e s l hraise
    unfold raiseOrAgain at hraise
    split at hraise <;> cases hraise
  unfold agentRound at h
  obtain ⟨⟨answer, routing⟩, log₁, -, h⟩ := LogM.exec_bind_ok h
  cases answer with
  | error e => cases h
  | ok completion =>
    dsimp only at h
    rw [LogM.exec_attempt_bind] at h
    generalize (cleanValidateCap W.toLoopWorld S .candidate completion.text).exec log₁ = verdict at h
    obtain ⟨outcome, log₂⟩ := verdict
    cases outcome with
    | error e =>
      dsimp only at h
      unfold agentRefused at h
      split at h
      · cases h
      · split at h
        · exact absurd h hagain
        · cases h
    | ok accepted =>
      obtain ⟨checked, injectedTop⟩ := accepted
      dsimp only at h
      unfold agentCandidate at h
      obtain ⟨sql, _, -, h⟩ := LogM.exec_bind_ok h
      obtain ⟨⟨s', corrected⟩, _, hcheck, h⟩ := LogM.exec_bind_ok h
      cases corrected with
      | some c =>
        cases h
        exact exec_filterValueCheck hcheck
      | none =>
        dsimp only at h
        unfold agentExecute at h
        rw [LogM.exec_attempt_bind] at h
        generalize hrun : (fetchRows W sql).exec _ = run at h
        obtain ⟨outcome, log₃⟩ := run
        cases outcome with
        | ok data =>
          cases h
          exact exec_fetchRows hrun
        | error e =>
          dsimp only at h
          split at h
          · exact absurd h hagain
          · cases h

/-- **The result of the loop** was fetched last. -/
theorem exec_agentRounds {rounds k : ℕ} {s : LoopState} {result : SqlGenerationResult} {log log' : List LoopEvent}
    (h : (forRounds (agentRound W S) k rounds s).exec log = (.ok (some result), log')) :
    FetchedLast W result.sql result.data log' := by
  induction rounds generalizing k s log with
  | zero => cases h
  | succ n ih =>
    rw [forRounds] at h
    obtain ⟨decision, log₁, hround, h⟩ := LogM.exec_bind_ok h
    cases decision with
    | leave result' =>
      cases h
      exact exec_agentRound hround
    | again s' => exact ih h

/-- **The rows of an answer** of `_attempt_loop`: its log ends in the execution of an approved statement that
returned them, or the statement cache answered. -/
theorem exec_attemptLoop {routing : Option SourceRouting} {result : SqlGenerationResult} {log : List LoopEvent}
    (h : (attemptLoop W S routing).exec [] = (.ok result, log)) :
    (∃ older, log = .executed result.sql :: older ∧ W.execute older result.sql = .ok result.data ∧
        Approved W.toLoopWorld S result.sql older) ∨
      W.sqlCacheLookup log result.sql = .ok (some result.data) := by
  unfold attemptLoop at h
  obtain ⟨rounds, log₁, hrounds, h⟩ := LogM.exec_bind_ok h
  cases rounds with
  | none => cases h
  | some result' =>
    cases h
    have hsafe : RunSafe W.toLoopWorld S ((agentRounds W S routing).exec []) :=
      runSafe_of_rounds meets_agentRound _
    obtain ⟨older, rfl, hexecute⟩ | hcached := exec_agentRounds hrounds
    · exact .inl ⟨older, rfl, hexecute, hsafe.lawful [] (.executed result.sql) older (congrArg Prod.snd hrounds)⟩
    · exact .inr hcached

end LocalSqlAgent
