import LocalSqlAgent.Appdb.Feedback
import LocalSqlAgent.Lib.Pool

/-! # Flagging and confirming one turn

A principal flags a turn's answer or confirms it, and the later action takes the earlier mark back. Each
call stores its own mark in one transaction and withdraws the other mark in another, with reads between
them, so overlapping calls interleave statement by statement.

* **`Covered`**: while both marks stand a call is about to withdraw one.
* **`Marked`**: once a call has returned a mark stands.
* **`exactlyOneMark_of_runWhere`**: which runs end with exactly one mark. -/

namespace LocalSqlAgent

/-- A row of `turn_confirmations`. -/
structure Confirmation where
  /-- The primary key. -/
  confirmationId : ℕ
  /-- The turn's session. -/
  sessionId : String
  /-- The turn. -/
  turnId : String
  /-- Who confirmed it. -/
  principalId : String
  /-- The audit record's request. -/
  requestId : Option String
  /-- When. -/
  createdAt : String
  deriving DecidableEq, Repr

/-- How far a call has come: the statement it runs next. -/
inductive MarkPhase where
  /-- A flag call: the insert of `submit_flag`. -/
  | insertFlag (t : AuditedTurn) (category note : String)
  /-- A flag call: `get_feedback` on the new row. -/
  | readFlag (feedbackId : ℕ)
  /-- A flag call: the delete of `withdraw_confirmation`. -/
  | withdrawConfirmation
  /-- A confirm call: the first `get_confirmation`. -/
  | findConfirmation (requestId : Option String)
  /-- A confirm call: the insert. -/
  | insertConfirmation (requestId : Option String)
  /-- A confirm call: `get_confirmation` after the insert. -/
  | readConfirmation
  /-- A confirm call: the delete of `withdraw_open_flags`. -/
  | withdrawFlags
  /-- It returned. -/
  | returned
  /-- It raised. -/
  | raised
  deriving DecidableEq, Repr

/-- The two tables, and the principal's calls on the turn. -/
structure MarkState where
  /-- `turn_feedback`. -/
  flags : List Flag
  /-- `turn_confirmations`. -/
  confirmations : List Confirmation
  /-- The calls, in the order they were made. -/
  calls : List MarkPhase
  deriving DecidableEq, Repr

/-- What happens next. -/
inductive MarkStep where
  /-- The principal flags the turn. -/
  | flag (category note : String)
  /-- The principal confirms it. -/
  | confirm
  /-- The call at an index runs its next statement. -/
  | next (i : ℕ) (now : String)

/-- The row of a principal's confirmation of a turn. -/
def confirmationOf (sessionId turnId principalId : String) (c : Confirmation) : Bool :=
  c.sessionId = sessionId ∧ c.turnId = turnId ∧ c.principalId = principalId

section OneTurn

variable (log : List AuditedTurn) (sessionId turnId principalId : String)

/-- An open flag of the principal on the turn stands. -/
def MarkState.flagStands (s : MarkState) : Bool := s.flags.any (openFlagOf sessionId turnId principalId)

/-- The principal's confirmation of the turn stands. -/
def MarkState.confirmationStands (s : MarkState) : Bool :=
  s.confirmations.any (confirmationOf sessionId turnId principalId)

/-- The statement of the call at an index: what it leaves of the tables, and the call after it. -/
def markStatement (s : MarkState) (now : String) :
    MarkPhase → Option (List Flag × List Confirmation × MarkPhase)
  | .insertFlag t category note =>
    -- nothing looks for an open flag that is there already
    let new := newFlag s.flags sessionId turnId t principalId category note now
    some (s.flags ++ [new], s.confirmations, .readFlag new.feedbackId)
  | .readFlag feedbackId =>
    if s.flags.any fun f => f.feedbackId = feedbackId then
      some (s.flags, s.confirmations, .withdrawConfirmation)
    else some (s.flags, s.confirmations, .raised)
  | .withdrawConfirmation =>
    some (s.flags, s.confirmations.filter fun c => ¬ confirmationOf sessionId turnId principalId c, .returned)
  | .findConfirmation requestId =>
    if s.confirmationStands sessionId turnId principalId then some (s.flags, s.confirmations, .withdrawFlags)
    else some (s.flags, s.confirmations, .insertConfirmation requestId)
  | .insertConfirmation requestId =>
    -- the unique constraint: a row that is there already is an `IntegrityError`, caught
    if s.confirmationStands sessionId turnId principalId then some (s.flags, s.confirmations, .readConfirmation)
    else
      some (s.flags, s.confirmations ++ [⟨(s.confirmations.map (·.confirmationId)).foldr max 0 + 1, sessionId,
        turnId, principalId, requestId, now⟩], .readConfirmation)
  | .readConfirmation =>
    -- a flag call may have withdrawn it since
    if s.confirmationStands sessionId turnId principalId then some (s.flags, s.confirmations, .withdrawFlags)
    else some (s.flags, s.confirmations, .raised)
  | .withdrawFlags => some (withdrawOpenFlags s.flags sessionId turnId principalId, s.confirmations, .returned)
  | .returned | .raised => none

/-- **One step.** A call on a turn without an audit record, with an unknown category, or confirming an
answer that was no success raises before it writes. -/
def markStep (s : MarkState) : MarkStep → Option MarkState
  | .flag category note =>
    if category ∈ feedbackCategories then
      match findAuditedTurn log sessionId turnId with
      | some t => some { s with calls := s.calls ++ [.insertFlag t category note] }
      | none => some { s with calls := s.calls ++ [.raised] }
    else some { s with calls := s.calls ++ [.raised] }
  | .confirm =>
    match findAuditedTurn log sessionId turnId with
    | some t =>
      if t.executedSuccessfully then some { s with calls := s.calls ++ [.findConfirmation t.requestId] }
      else some { s with calls := s.calls ++ [.raised] }
    | none => some { s with calls := s.calls ++ [.raised] }
  | .next i now =>
    (s.calls[i]?).bind fun phase =>
      (markStatement sessionId turnId principalId s now phase).map fun next =>
        ⟨next.1, next.2.1, s.calls.set i next.2.2⟩

/-- A call is over. -/
def MarkPhase.over : MarkPhase → Bool
  | .returned | .raised => true
  | _ => false

/-- **Exactly one mark at rest**: when no call is in flight and one has returned, the flag is open or the
confirmation is there, and not both. -/
def ExactlyOneMark (s : MarkState) : Prop :=
  (∀ c ∈ s.calls, c.over = true) → MarkPhase.returned ∈ s.calls →
    (s.flagStands sessionId turnId principalId = true ∧ s.confirmationStands sessionId turnId principalId = false) ∨
    (s.flagStands sessionId turnId principalId = false ∧ s.confirmationStands sessionId turnId principalId = true)

/-- **A call withdraws the other mark only while its own mark stands.** -/
def OwnMarkStands (s : MarkState) (l : MarkStep) : Prop :=
  ∀ i now, l = .next i now →
    (s.calls[i]? = some .withdrawConfirmation → s.flagStands sessionId turnId principalId = true) ∧
    (s.calls[i]? = some .withdrawFlags → s.confirmationStands sessionId turnId principalId = true)

/-- The call stored its mark, or found it, and is to withdraw the other one. -/
def MarkPhase.Withdraws (flags : List Flag) : MarkPhase → Prop
  | .readFlag feedbackId => ∃ f ∈ flags, f.feedbackId = feedbackId
  | .withdrawConfirmation | .readConfirmation | .withdrawFlags => True
  | _ => False

/-- While both marks stand, a call is about to withdraw one. -/
def Covered (s : MarkState) : Prop :=
  s.flagStands sessionId turnId principalId = true → s.confirmationStands sessionId turnId principalId = true →
    ∃ c ∈ s.calls, c.Withdraws s.flags

/-- Once a call has returned a mark stands. -/
def Marked (s : MarkState) : Prop :=
  MarkPhase.returned ∈ s.calls →
    s.flagStands sessionId turnId principalId = true ∨ s.confirmationStands sessionId turnId principalId = true

/-- A step leaves a mark standing, once a call has returned. -/
def NeverUnmarked (s : MarkState) (l : MarkStep) : Prop :=
  ∀ s', markStep log sessionId turnId principalId s l = some s' → Marked sessionId turnId principalId s'

end OneTurn

variable {log : List AuditedTurn} {sessionId turnId principalId : String} {s s' : MarkState} {i : ℕ}
  {now : String} {phase next : MarkPhase} {flags : List Flag} {confirmations : List Confirmation}

/-- **What a step does**: a call is made, or the call at an index runs its next statement. -/
theorem markStep_cases {l : MarkStep} (hstep : markStep log sessionId turnId principalId s l = some s') :
    (∃ c, c ≠ MarkPhase.returned ∧ s' = { s with calls := s.calls ++ [c] }) ∨
      ∃ i now phase flags confirmations next, l = .next i now ∧ s.calls[i]? = some phase ∧
        markStatement sessionId turnId principalId s now phase = some (flags, confirmations, next) ∧
        s' = ⟨flags, confirmations, s.calls.set i next⟩ := by
  cases l with
  | flag category note =>
    rw [markStep] at hstep
    split at hstep
    · split at hstep <;> · cases hstep; refine .inl ⟨_, ?_, rfl⟩; exact nofun
    · cases hstep
      refine .inl ⟨_, ?_, rfl⟩
      exact nofun
  | confirm =>
    rw [markStep] at hstep
    split at hstep
    · split at hstep <;> · cases hstep; refine .inl ⟨_, ?_, rfl⟩; exact nofun
    · cases hstep
      refine .inl ⟨_, ?_, rfl⟩
      exact nofun
  | next i now =>
    obtain ⟨phase, hphase, hmap⟩ := Option.bind_eq_some_iff.mp hstep
    obtain ⟨⟨flags, confirmations, next⟩, hstatement, rfl⟩ := Option.map_eq_some_iff.mp hmap
    exact .inr ⟨i, now, phase, flags, confirmations, next, rfl, hphase, hstatement, rfl⟩

/-! ## The marks after a statement -/

theorem flagStands_iff :
    s.flagStands sessionId turnId principalId = true ↔
      ∃ f ∈ s.flags, openFlagOf sessionId turnId principalId f = true := List.any_eq_true

theorem confirmationStands_iff :
    s.confirmationStands sessionId turnId principalId = true ↔
      ∃ c ∈ s.confirmations, confirmationOf sessionId turnId principalId c = true := List.any_eq_true

/-- A new flag of the principal on the turn stands. -/
theorem flagStands_append (t : AuditedTurn) (category note : String) (calls : List MarkPhase) :
    MarkState.flagStands sessionId turnId principalId
      ⟨s.flags ++ [newFlag s.flags sessionId turnId t principalId category note now], confirmations, calls⟩
      = true := by
  refine flagStands_iff.mpr ⟨_, List.mem_append_right _ (List.mem_singleton_self _), ?_⟩
  simp [openFlagOf, newFlag]

/-- A new confirmation of the principal stands. -/
theorem confirmationStands_append (id : ℕ) (requestId : Option String) (calls : List MarkPhase) :
    MarkState.confirmationStands sessionId turnId principalId
      ⟨flags, s.confirmations ++ [⟨id, sessionId, turnId, principalId, requestId, now⟩], calls⟩ = true := by
  refine confirmationStands_iff.mpr ⟨_, List.mem_append_right _ (List.mem_singleton_self _), ?_⟩
  simp [confirmationOf]

/-- No open flag of the principal is left on the turn. -/
theorem flagStands_withdrawOpenFlags (calls : List MarkPhase) :
    MarkState.flagStands sessionId turnId principalId
      ⟨withdrawOpenFlags s.flags sessionId turnId principalId, confirmations, calls⟩ = false := by
  rw [Bool.eq_false_iff, ne_eq, flagStands_iff]
  rintro ⟨f, hf, hopen⟩
  rw [(mem_withdrawOpenFlags.mp hf).2] at hopen
  cases hopen

/-- No confirmation of the principal is left on the turn. -/
theorem confirmationStands_filter (calls : List MarkPhase) :
    MarkState.confirmationStands sessionId turnId principalId
      ⟨flags, s.confirmations.filter fun c => ¬ confirmationOf sessionId turnId principalId c, calls⟩
      = false := by
  rw [Bool.eq_false_iff, ne_eq, confirmationStands_iff]
  rintro ⟨c, hc, hstands⟩
  have hnot := (List.mem_filter.mp hc).2
  rw [hstands] at hnot
  cases hnot

/-! ## Never both at rest -/

/-- A new call that has stored nothing changes no mark. -/
theorem Covered.append (h : Covered sessionId turnId principalId s) (c : MarkPhase) :
    Covered sessionId turnId principalId { s with calls := s.calls ++ [c] } := by
  intro hflag hconfirmation
  obtain ⟨c', hc', hwithdraws⟩ := h hflag hconfirmation
  exact ⟨c', List.mem_append_left _ hc', hwithdraws⟩

/-- A statement after which its call is about to withdraw a mark. -/
theorem covered_of_withdraws (hphase : s.calls[i]? = some phase) (hnext : next.Withdraws flags) :
    Covered sessionId turnId principalId ⟨flags, confirmations, s.calls.set i next⟩ :=
  fun _ _ => ⟨next, Pool.mem_set_self hphase next, hnext⟩

/-- **A statement** keeps a call about to withdraw a mark while both stand; a withdrawal needs no such call
before it. -/
theorem covered_markStatement (hphase : s.calls[i]? = some phase)
    (h : Covered sessionId turnId principalId s ∨ next = .returned)
    (hstep : markStatement sessionId turnId principalId s now phase = some (flags, confirmations, next)) :
    Covered sessionId turnId principalId ⟨flags, confirmations, s.calls.set i next⟩ := by
  cases phase with
  | insertFlag t category note =>
    -- the new row is there to be read back, so the call itself is to withdraw
    cases hstep
    refine covered_of_withdraws hphase ?_
    exact ⟨_, List.mem_append_right _ (List.mem_singleton_self _), rfl⟩
  | readFlag feedbackId =>
    rw [markStatement] at hstep
    split at hstep
    · cases hstep
      exact covered_of_withdraws hphase trivial
    · -- the row is gone: another call is the one that withdraws
      rename_i hgone
      cases hstep
      intro hflag hconfirmation
      obtain ⟨c, hc, hwithdraws⟩ := h.resolve_right nofun hflag hconfirmation
      refine ⟨c, Pool.mem_set_of_ne hc (fun heq => hgone ?_) _, hwithdraws⟩
      obtain rfl := Option.some_inj.mp (hphase.symm.trans heq)
      obtain ⟨f, hf, hid⟩ := hwithdraws
      exact List.any_eq_true.mpr ⟨f, hf, decide_eq_true hid⟩
  | withdrawConfirmation =>
    -- the two marks no longer both stand
    cases hstep
    intro _ hconfirmation
    rw [confirmationStands_filter] at hconfirmation
    cases hconfirmation
  | findConfirmation requestId =>
    rw [markStatement] at hstep
    split at hstep
    · cases hstep
      exact covered_of_withdraws hphase trivial
    · -- nothing changes, and no confirmation stands
      rename_i hnone
      cases hstep
      exact fun _ hconfirmation => absurd hconfirmation hnone
  | insertConfirmation requestId =>
    rw [markStatement] at hstep
    split at hstep <;> · cases hstep; exact covered_of_withdraws hphase trivial
  | readConfirmation =>
    rw [markStatement] at hstep
    split at hstep
    · cases hstep
      exact covered_of_withdraws hphase trivial
    · rename_i hnone
      cases hstep
      exact fun _ hconfirmation => absurd hconfirmation hnone
  | withdrawFlags =>
    cases hstep
    intro hflag _
    rw [flagStands_withdrawOpenFlags] at hflag
    cases hflag
  | returned => cases hstep
  | raised => cases hstep

/-- **A step** keeps a call about to withdraw a mark while both stand, once a call has returned. -/
theorem covered_step {l : MarkStep}
    (h : MarkPhase.returned ∈ s.calls → Covered sessionId turnId principalId s)
    (hstep : markStep log sessionId turnId principalId s l = some s') :
    MarkPhase.returned ∈ s'.calls → Covered sessionId turnId principalId s' := by
  intro hmem
  obtain ⟨c, hc, rfl⟩ | ⟨i, now, phase, flags, confirmations, next, rfl, hphase, hstatement, rfl⟩ :=
    markStep_cases hstep
  · obtain hold | hnew := List.mem_append.mp hmem
    · exact (h hold).append c
    · exact absurd (List.mem_singleton.mp hnew).symm hc
  · refine covered_markStatement hphase ?_ hstatement
    -- a call that returns is a withdrawal; before any other statement some call had returned
    by_cases hnext : next = .returned
    · exact .inr hnext
    · exact .inl (h (Pool.mem_of_mem_set hmem (Ne.symm hnext)))

/-! ## Never neither -/

/-- A statement that withdraws nothing takes no mark away. -/
theorem marked_markStatement (h : Marked sessionId turnId principalId s) (hphase : s.calls[i]? = some phase)
    (hflag : phase ≠ .withdrawConfirmation) (hconfirm : phase ≠ .withdrawFlags)
    (hstep : markStatement sessionId turnId principalId s now phase = some (flags, confirmations, next)) :
    Marked sessionId turnId principalId ⟨flags, confirmations, s.calls.set i next⟩ := by
  cases phase with
  | insertFlag t category note =>
    cases hstep
    exact fun _ => .inl (flagStands_append t category note _)
  | readFlag feedbackId =>
    rw [markStatement] at hstep
    split at hstep <;> · cases hstep; exact fun hmem => h (Pool.mem_of_mem_set hmem nofun)
  | withdrawConfirmation => exact absurd rfl hflag
  | findConfirmation requestId =>
    rw [markStatement] at hstep
    split at hstep <;> · cases hstep; exact fun hmem => h (Pool.mem_of_mem_set hmem nofun)
  | insertConfirmation requestId =>
    rw [markStatement] at hstep
    split at hstep
    · cases hstep
      exact fun hmem => h (Pool.mem_of_mem_set hmem nofun)
    · cases hstep
      exact fun _ => .inr (confirmationStands_append _ requestId _)
  | readConfirmation =>
    rw [markStatement] at hstep
    split at hstep <;> · cases hstep; exact fun hmem => h (Pool.mem_of_mem_set hmem nofun)
  | withdrawFlags => exact absurd rfl hconfirm
  | returned => cases hstep
  | raised => cases hstep

theorem marked_append (h : Marked sessionId turnId principalId s) {c : MarkPhase} (hc : c ≠ .returned) :
    Marked sessionId turnId principalId { s with calls := s.calls ++ [c] } := by
  intro hmem
  obtain hold | hnew := List.mem_append.mp hmem
  · exact h hold
  · exact absurd (List.mem_singleton.mp hnew).symm hc

/-- **One step** leaves a mark standing exactly when its call's own mark stands as it withdraws the other. -/
theorem neverUnmarked_step_iff (h : Marked sessionId turnId principalId s) (l : MarkStep) :
    NeverUnmarked log sessionId turnId principalId s l ↔ OwnMarkStands sessionId turnId principalId s l := by
  -- a step that withdraws nothing takes no mark away
  have hquiet : (∀ i now, l = .next i now → s.calls[i]? ≠ some .withdrawConfirmation ∧
      s.calls[i]? ≠ some .withdrawFlags) → NeverUnmarked log sessionId turnId principalId s l := by
    intro hno s' hstep
    obtain ⟨c, hc, rfl⟩ | ⟨i, now, phase, flags, confirmations, next, rfl, hphase, hstatement, rfl⟩ :=
      markStep_cases hstep
    · exact marked_append h hc
    · refine marked_markStatement h hphase ?_ ?_ hstatement
      · rintro rfl
        exact (hno i now rfl).1 hphase
      · rintro rfl
        exact (hno i now rfl).2 hphase
  cases l with
  | flag category note => exact iff_of_true (hquiet nofun) nofun
  | confirm => exact iff_of_true (hquiet nofun) nofun
  | next i now =>
    by_cases hflag : s.calls[i]? = some .withdrawConfirmation
    · -- a flag call withdraws the confirmation: the flag has to stand
      have hstep : markStep log sessionId turnId principalId s (.next i now) = some ⟨s.flags,
          s.confirmations.filter fun c => ¬ confirmationOf sessionId turnId principalId c,
          s.calls.set i .returned⟩ := by
        rw [markStep, hflag]
        rfl
      constructor
      · rintro hmarked j now' heq
        cases heq
        refine ⟨fun _ => ?_, fun hother => ?_⟩
        · obtain hstands | hstands := hmarked _ hstep (Pool.mem_set_self hflag _)
          · exact hstands
          · rw [confirmationStands_filter] at hstands
            cases hstands
        · rw [hflag] at hother
          cases hother
      · intro hown s' hs'
        obtain rfl := Option.some_inj.mp (hstep.symm.trans hs')
        exact fun _ => .inl ((hown i now rfl).1 hflag)
    · by_cases hconfirm : s.calls[i]? = some .withdrawFlags
      · -- a confirm call withdraws the flags: the confirmation has to stand
        have hstep : markStep log sessionId turnId principalId s (.next i now) = some
            ⟨withdrawOpenFlags s.flags sessionId turnId principalId, s.confirmations,
              s.calls.set i .returned⟩ := by
          rw [markStep, hconfirm]
          rfl
        constructor
        · rintro hmarked j now' heq
          cases heq
          refine ⟨fun hother => absurd hother hflag, fun _ => ?_⟩
          obtain hstands | hstands := hmarked _ hstep (Pool.mem_set_self hconfirm _)
          · rw [flagStands_withdrawOpenFlags] at hstands
            cases hstands
          · exact hstands
        · intro hown s' hs'
          obtain rfl := Option.some_inj.mp (hstep.symm.trans hs')
          exact fun _ => .inr ((hown i now rfl).2 hconfirm)
      · refine iff_of_true (hquiet ?_) ?_
        · rintro j now' heq
          cases heq
          exact ⟨hflag, hconfirm⟩
        · rintro j now' heq
          cases heq
          exact ⟨fun hphase => absurd hphase hflag, fun hphase => absurd hphase hconfirm⟩

/-! ## Whole runs -/

/-- **The runs that never lose both marks** once a call has returned. -/
theorem neverUnmarked_iff (steps : List MarkStep) :
    RunWhere (markStep log sessionId turnId principalId) (NeverUnmarked log sessionId turnId principalId)
      ⟨flags, confirmations, []⟩ steps s ↔
    RunWhere (markStep log sessionId turnId principalId) (OwnMarkStands sessionId turnId principalId)
      ⟨flags, confirmations, []⟩ steps s := by
  refine RunWhere.congr_of_kept (I := Marked sessionId turnId principalId) nofun ?_ ?_
  · exact fun _ _ s' _ hkeeps hstep => hkeeps s' hstep
  · exact fun _ l hI => neverUnmarked_step_iff hI l

/-- **In every run** the two marks do not both stand at rest, once a call has returned. -/
theorem notBoth_of_run {steps : List MarkStep}
    (h : run (markStep log sessionId turnId principalId) ⟨flags, confirmations, []⟩ steps = some s)
    (hrest : ∀ c ∈ s.calls, c.over = true) (hreturned : MarkPhase.returned ∈ s.calls) :
    s.flagStands sessionId turnId principalId = false ∨
      s.confirmationStands sessionId turnId principalId = false := by
  have hcovered : MarkPhase.returned ∈ s.calls → Covered sessionId turnId principalId s :=
    (run_eq_some_iff.mp h).invariant
      (I := fun s => MarkPhase.returned ∈ s.calls → Covered sessionId turnId principalId s) nofun
      fun _ _ _ hs _ hstep => covered_step hs hstep
  by_contra hboth
  rw [not_or, Bool.not_eq_false, Bool.not_eq_false] at hboth
  -- a call about to withdraw is not over
  obtain ⟨c, hc, hwithdraws⟩ := hcovered hreturned hboth.1 hboth.2
  have hover := hrest c hc
  cases c <;> first | exact hwithdraws | cases hover

/-- **Exactly one mark stands** at rest, once a call has returned, in every run in which a call withdraws
the other mark only while its own stands. -/
theorem exactlyOneMark_of_runWhere (log : List AuditedTurn) (sessionId turnId principalId : String)
    (flags : List Flag) (confirmations : List Confirmation) (steps : List MarkStep) (s : MarkState)
    (h : RunWhere (markStep log sessionId turnId principalId) (OwnMarkStands sessionId turnId principalId)
      ⟨flags, confirmations, []⟩ steps s) : ExactlyOneMark sessionId turnId principalId s := by
  intro hrest hreturned
  have hmarked : Marked sessionId turnId principalId s :=
    h.invariant (I := Marked sessionId turnId principalId) nofun
      fun _ l s' hs hown hstep => (@neverUnmarked_step_iff log _ _ _ _ hs l).mpr hown s' hstep
  have hrun := run_eq_some_iff.mpr (h.mono fun _ _ _ => trivial)
  have hnot := notBoth_of_run hrun hrest hreturned
  have hsome := hmarked hreturned
  revert hnot hsome
  cases s.flagStands sessionId turnId principalId <;>
    cases s.confirmationStands sessionId turnId principalId <;> simp

/-- A flag call, alone. -/
def flagAlone : List MarkStep :=
  [.flag "wrong_number" "", .next 0 "t1", .next 0 "t2", .next 0 "t3"]

theorem exactlyOneMark_flagAlone :
    ExactlyOneMark "s1" "t1" "analyst-1"
      ⟨[newFlag [] "s1" "t1" auditedTurn "analyst-1" "wrong_number" "" "t1"], [], [.returned]⟩ := by
  refine exactlyOneMark_of_runWhere [auditedTurn] "s1" "t1" "analyst-1" []
    [⟨1, "s1", "t1", "analyst-1", some "r1", "t0"⟩] flagAlone _ ?_
  refine .cons nofun rfl (.cons ?_ rfl (.cons ?_ rfl (.cons ?_ rfl (.nil _))))
  all_goals
    intro i now heq
    cases heq
    exact ⟨by decide, by decide⟩

/-- Two tabs: one flags the turn, the other confirms it; both store their mark before either withdraws. -/
def flagAndConfirm : List MarkStep :=
  [.flag "wrong_number" "", .confirm, .next 0 "t1", .next 0 "t2", .next 1 "t3", .next 1 "t4", .next 1 "t5",
    .next 0 "t6", .next 1 "t7"]

/-- **Both calls return and no mark stands**: each withdrew the other's. -/
theorem flagAndConfirm_leaves_neither :
    run (markStep [auditedTurn] "s1" "t1" "analyst-1") ⟨[], [], []⟩ flagAndConfirm
      = some ⟨[], [], [.returned, .returned]⟩ ∧
    ¬ ExactlyOneMark "s1" "t1" "analyst-1" ⟨[], [], [.returned, .returned]⟩ := by
  refine ⟨by decide, fun h => ?_⟩
  exact absurd (h (by decide) (by decide)) (by decide)

end LocalSqlAgent
