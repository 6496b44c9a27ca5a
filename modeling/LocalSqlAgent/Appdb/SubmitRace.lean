import LocalSqlAgent.Appdb.AccessRequests
import LocalSqlAgent.Lib.Pool

/-! # Overlapping submissions

`submit_request` statement by statement: the audit record gives the column, a select looks for an open
request of the pair, and the insert follows when it found none. The select takes no lock and no constraint
stands behind the insert, so the statements of other calls come between. Decisions on requests run as the
single transactions they are.

* **`submitRequest_alone`**: a call nothing comes between is `submitRequest`.
* **`keepsOneOpen_iff`**: which runs keep at most one open request for a principal and a column. -/

namespace LocalSqlAgent

/-- How far a call of `submit_request` has come. -/
inductive SubmitPhase where
  /-- The column is known; the select is to come. -/
  | selecting
  /-- The select found no open request; the insert is to come. -/
  | inserting
  /-- It returned a request's id, and whether it is new. -/
  | returned (requestId : ℕ) (created : Bool)
  /-- The database failed. -/
  | raised
  deriving DecidableEq, Repr

/-- A call of `submit_request` past its look into the audit log. -/
structure SubmitCall where
  /-- `session_id`. -/
  sessionId : String
  /-- `turn_id`. -/
  turnId : String
  /-- `requester_principal_id`. -/
  principalId : String
  /-- `column_name`, the subject of the audited rejection. -/
  columnName : String
  /-- How far it has come. -/
  phase : SubmitPhase
  deriving DecidableEq, Repr

/-- The tables and the calls. -/
structure SubmitState where
  /-- The audit log, the requests and the key tables. -/
  access : AccessState
  /-- The calls, in the order they were made. -/
  calls : List SubmitCall

/-- No request and no call yet. -/
def SubmitState.init (db : KeyDb) : SubmitState := ⟨⟨[], [], db⟩, []⟩

/-- What happens next. -/
inductive SubmitStep where
  /-- A turn is audited. -/
  | record (r : AuditRecord)
  /-- A call looks for its audit record. -/
  | submit (sessionId turnId principalId : String)
  /-- The select of the call at an index. -/
  | select (i : ℕ)
  /-- The insert of the call at an index, committed. -/
  | insert (i : ℕ) (now : String)
  /-- A statement of the call at an index fails. -/
  | fail (i : ℕ)
  /-- An approval. -/
  | approve (requestId : ℕ) (actor now : String)
  /-- A denial. -/
  | deny (requestId : ℕ) (actor reason now : String)

/-- The `where` clause of the select. -/
def openFor (principalId columnName : String) (q : AccessRequest) : Bool :=
  q.requesterPrincipalId = principalId ∧ q.columnName = columnName ∧ q.status = .opened

/-- The row a call inserts. -/
def SubmitCall.row (call : SubmitCall) (requests : List AccessRequest) (now : String) : AccessRequest :=
  ⟨requests.length + 1, call.sessionId, call.turnId, call.principalId, call.columnName, now, .opened, none,
    none, none⟩

/-- A call reaches another phase. -/
def SubmitState.setPhase (s : SubmitState) (i : ℕ) (call : SubmitCall) (phase : SubmitPhase) : SubmitState :=
  { s with calls := s.calls.set i { call with phase := phase } }

section Interleaved

variable (repr : String → String)

/-- **One step.** -/
def submitStep (s : SubmitState) : SubmitStep → Option SubmitState
  | .record r => some { s with access := { s.access with log := r :: s.access.log } }
  | .submit sessionId turnId principalId =>
    match (findRecordByTurn s.access.log sessionId turnId).bind AuditRecord.deniedColumn with
    | some columnName =>
      some { s with calls := s.calls ++ [⟨sessionId, turnId, principalId, columnName, .selecting⟩] }
    | none => some s
  | .select i =>
    match s.calls[i]? with
    | some call =>
      if call.phase = .selecting then
        match s.access.requests.find? (openFor call.principalId call.columnName) with
        | some existing => some (s.setPhase i call (.returned existing.requestId false))
        | none => some (s.setPhase i call .inserting)
      else none
    | none => none
  | .insert i now =>
    match s.calls[i]? with
    | some call =>
      if call.phase = .inserting then
        let row := call.row s.access.requests now
        some (SubmitState.setPhase
          { s with access := { s.access with requests := s.access.requests ++ [row] } }
          i call (.returned row.requestId true))
      else none
    | none => none
  | .fail i =>
    match s.calls[i]? with
    | some call =>
      if call.phase = .selecting ∨ call.phase = .inserting then some (s.setPhase i call .raised) else none
    | none => none
  | .approve requestId actor now =>
    match approveRequest repr s.access requestId actor now with
    | .ok (access, _) => some { s with access := access }
    | .error _ => some s
  | .deny requestId actor reason now =>
    match denyRequest repr s.access requestId actor reason now with
    | .ok (access, _) => some { s with access := access }
    | .error _ => some s

/-- At most one open request for a principal and a column. -/
def OneOpen (requests : List AccessRequest) : Prop :=
  ∀ principalId columnName, requests.countP (openFor principalId columnName) ≤ 1

/-- The call at an index, when it just returned, returned the id of an open request of its pair. -/
def AnswersOpen (s : SubmitState) (i : ℕ) : Prop :=
  ∀ call requestId created, s.calls[i]? = some call → call.phase = .returned requestId created →
    ∃ q ∈ s.access.requests, openFor call.principalId call.columnName q = true ∧ q.requestId = requestId

/-- **A step keeps one open request for a pair**, and an answer it gives names it. -/
def KeepsOneOpen (s : SubmitState) (l : SubmitStep) : Prop :=
  ∀ s', submitStep repr s l = some s' → OneOpen s'.access.requests ∧
    ∀ i, (l = .select i ∨ ∃ now, l = .insert i now) → AnswersOpen s' i

/-- A call inserts only while no request of its pair is open. -/
def NoneOpenAtInsert (s : SubmitState) (l : SubmitStep) : Prop :=
  ∀ i now call, l = .insert i now → s.calls[i]? = some call → call.phase = .inserting →
    ∀ q ∈ s.access.requests, openFor call.principalId call.columnName q = false

end Interleaved

variable {repr : String → String} {s s' : SubmitState} {i : ℕ} {call : SubmitCall}

/-! ## Requests under decisions -/

/-- A decision opens nothing. -/
theorem OneOpen.claim {a a' : AccessState} {requestId : ℕ} {status : RequestStatus} {note : Option String}
    {actor now : String} {q : AccessRequest} (h : OneOpen a.requests) (hstatus : status ≠ .opened)
    (hclaim : claimRequest a requestId (AccessRequest.resolve status note actor now) = some (a', q)) :
    OneOpen a'.requests := by
  intro principalId columnName
  rw [requests_of_claim hclaim, List.countP_map]
  refine le_trans (List.countP_mono_left fun row _ hopen => ?_) (h principalId columnName)
  rw [Function.comp_apply] at hopen
  split at hopen
  · -- a decided row is not open
    simp [openFor, AccessRequest.resolve, hstatus] at hopen
  · exact hopen

theorem OneOpen.approve {a a' : AccessState} {requestId : ℕ} {actor now : String} {answer : AccessRequest × ℕ}
    (h : OneOpen a.requests) (happrove : approveRequest repr a requestId actor now = .ok (a', answer)) :
    OneOpen a'.requests := by
  unfold approveRequest at happrove
  split at happrove
  · cases happrove
  · rename_i claimed row hclaim
    cases happrove
    have hkept : OneOpen claimed.requests := by
      refine h.claim ?_ hclaim
      exact nofun
    exact hkept

theorem OneOpen.deny {a a' : AccessState} {requestId : ℕ} {actor reason now : String} {answer : AccessRequest}
    (h : OneOpen a.requests) (hdeny : denyRequest repr a requestId actor reason now = .ok (a', answer)) :
    OneOpen a'.requests := by
  unfold denyRequest at hdeny
  split at hdeny
  · cases hdeny
  · split at hdeny
    · cases hdeny
    · rename_i claimed hclaim
      cases hdeny
      refine h.claim ?_ hclaim
      exact nofun

/-! ## Inserts -/

theorem openFor_row (requests : List AccessRequest) (now : String) (principalId columnName : String) :
    openFor principalId columnName (call.row requests now) = true ↔
      call.principalId = principalId ∧ call.columnName = columnName := by
  simp [openFor, SubmitCall.row]

/-- **An insert** keeps one open request exactly when none of its pair was open. -/
theorem oneOpen_insert_iff {requests : List AccessRequest} (h : OneOpen requests) (now : String) :
    OneOpen (requests ++ [call.row requests now]) ↔
      ∀ q ∈ requests, openFor call.principalId call.columnName q = false := by
  have hcount : ∀ principalId columnName, (requests ++ [call.row requests now]).countP
      (openFor principalId columnName) = requests.countP (openFor principalId columnName) +
        if call.principalId = principalId ∧ call.columnName = columnName then 1 else 0 := by
    intro principalId columnName
    rw [List.countP_append, List.countP_singleton]
    congr 1
    -- the new row is open, for its own pair only
    exact if_congr (openFor_row requests now principalId columnName) rfl rfl
  constructor
  · intro hnew
    have hle := hnew call.principalId call.columnName
    rw [hcount, if_pos ⟨rfl, rfl⟩] at hle
    have hzero : requests.countP (openFor call.principalId call.columnName) = 0 := by omega
    intro q hq
    simpa using List.countP_eq_zero.mp hzero q hq
  · intro hnone principalId columnName
    rw [hcount]
    split
    · -- the pair of the call: it had no open request
      rename_i heq
      obtain ⟨rfl, rfl⟩ := heq
      have hzero : requests.countP (openFor call.principalId call.columnName) = 0 :=
        List.countP_eq_zero.mpr fun q hq => by simp [hnone q hq]
      omega
    · exact h principalId columnName

/-- The id a new row answers with is its own. -/
theorem answersOpen_insert (now : String) :
    AnswersOpen (SubmitState.setPhase
      { s with access := { s.access with
          requests := s.access.requests ++ [call.row s.access.requests now] } }
      i call (.returned (call.row s.access.requests now).requestId true)) i := by
  intro call' requestId created hcall hphase
  obtain rfl := Pool.getElem?_set_eq_some hcall
  cases hphase
  refine ⟨call.row s.access.requests now, ?_, ?_, rfl⟩
  · exact List.mem_append_right _ (List.mem_singleton_self _)
  · exact (openFor_row _ _ _ _).mpr ⟨rfl, rfl⟩

/-- A select that finds a request answers with the id of an open one. -/
theorem answersOpen_select {existing : AccessRequest}
    (h : s.access.requests.find? (openFor call.principalId call.columnName) = some existing) :
    AnswersOpen (s.setPhase i call (.returned existing.requestId false)) i := by
  intro call' requestId created hcall hphase
  obtain rfl := Pool.getElem?_set_eq_some hcall
  cases hphase
  exact ⟨existing, List.mem_of_find?_eq_some h, List.find?_some h, rfl⟩

/-! ## Which runs keep one open request -/

/-- A step that is no insert keeps one open request, and a select's answer names it. -/
theorem keepsOneOpen_of_not_insert (h : OneOpen s.access.requests) {l : SubmitStep}
    (hl : ∀ i now, l ≠ .insert i now) : KeepsOneOpen repr s l := by
  intro s' hstep
  cases l with
  | record r =>
    cases hstep
    exact ⟨h, fun i hi => by simp at hi⟩
  | submit sessionId turnId principalId =>
    rw [submitStep] at hstep
    split at hstep <;> · cases hstep; exact ⟨h, fun i hi => by simp at hi⟩
  | select i =>
    rw [submitStep] at hstep
    split at hstep
    · rename_i call hcall
      split at hstep
      · split at hstep
        · rename_i existing hfind
          cases hstep
          refine ⟨h, fun j hj => ?_⟩
          obtain heq | ⟨now, heq⟩ := hj
          · cases heq
            exact answersOpen_select hfind
          · cases heq
        · cases hstep
          refine ⟨h, fun j hj => ?_⟩
          obtain heq | ⟨now, heq⟩ := hj
          · cases heq
            -- the insert is still to come, so nothing is answered
            intro call' requestId created hcall' hphase
            obtain rfl := Pool.getElem?_set_eq_some hcall'
            cases hphase
          · cases heq
      · cases hstep
    · cases hstep
  | insert i now => exact absurd rfl (hl i now)
  | fail i =>
    rw [submitStep] at hstep
    split at hstep
    · split at hstep
      · cases hstep
        exact ⟨h, fun j hj => by simp at hj⟩
      · cases hstep
    · cases hstep
  | approve requestId actor now =>
    rw [submitStep] at hstep
    split at hstep
    · rename_i access answer happrove
      cases hstep
      exact ⟨h.approve happrove, fun j hj => by simp at hj⟩
    · cases hstep
      exact ⟨h, fun j hj => by simp at hj⟩
  | deny requestId actor reason now =>
    rw [submitStep] at hstep
    split at hstep
    · rename_i access answer hdeny
      cases hstep
      exact ⟨h.deny hdeny, fun j hj => by simp at hj⟩
    · cases hstep
      exact ⟨h, fun j hj => by simp at hj⟩

theorem submitStep_insert (repr : String → String) (hcall : s.calls[i]? = some call)
    (hphase : call.phase = .inserting) (now : String) :
    submitStep repr s (.insert i now) = some (SubmitState.setPhase
      { s with access := { s.access with
          requests := s.access.requests ++ [call.row s.access.requests now] } }
      i call (.returned (call.row s.access.requests now).requestId true)) := by
  rw [submitStep, hcall]
  exact if_pos hphase

/-- **One step.** -/
theorem keepsOneOpen_step_iff (h : OneOpen s.access.requests) (l : SubmitStep) :
    KeepsOneOpen repr s l ↔ NoneOpenAtInsert s l := by
  by_cases hl : ∃ i now call, l = .insert i now ∧ s.calls[i]? = some call ∧ call.phase = .inserting
  · obtain ⟨i, now, call, rfl, hcall, hphase⟩ := hl
    have hstep := submitStep_insert repr hcall hphase now
    constructor
    · rintro hkeeps j now' call' heq hcall' -
      cases heq
      obtain rfl : call = call' := Option.some_inj.mp (hcall.symm.trans hcall')
      exact (oneOpen_insert_iff h now).mp (hkeeps _ hstep).1
    · intro hnone s' hs'
      obtain rfl := Option.some_inj.mp (hstep.symm.trans hs')
      refine ⟨(oneOpen_insert_iff h now).mpr (hnone i now call rfl hcall hphase), fun j hj => ?_⟩
      obtain heq | ⟨now', heq⟩ := hj
      · cases heq
      · cases heq
        exact answersOpen_insert now
  · -- no insert happens, so the condition asks for nothing
    refine iff_of_true ?_ fun i now call heq hcall hphase => absurd ⟨i, now, call, heq, hcall, hphase⟩ hl
    by_cases hinsert : ∃ i now, l = .insert i now
    · obtain ⟨i, now, rfl⟩ := hinsert
      intro s' hs'
      rw [submitStep] at hs'
      split at hs'
      · rename_i call hcall
        split at hs'
        · rename_i hphase
          exact absurd ⟨i, now, call, rfl, hcall, hphase⟩ hl
        · cases hs'
      · cases hs'
    · exact keepsOneOpen_of_not_insert h fun i now heq => hinsert ⟨i, now, heq⟩

/-- **The runs that keep at most one open request for a principal and a column**, and answer with its id,
are those in which a call inserts only while no request of its pair is open. -/
theorem keepsOneOpen_iff (repr : String → String) (db : KeyDb) (steps : List SubmitStep) (s : SubmitState) :
    RunWhere (submitStep repr) (KeepsOneOpen repr) (SubmitState.init db) steps s ↔
      RunWhere (submitStep repr) NoneOpenAtInsert (SubmitState.init db) steps s := by
  refine RunWhere.congr_of_kept (I := fun s => OneOpen s.access.requests) ?_ ?_ ?_
  · exact fun _ _ => Nat.zero_le 1
  · exact fun _ _ s' _ hkeeps hstep => (hkeeps s' hstep).1
  · exact fun _ l hI => keepsOneOpen_step_iff hI l

/-! ## One call alone -/

/-- **A call nothing comes between** is `submit_request`: the select, and the insert when it found no open
request, leave the tables `submitRequest` computes and return its answer. -/
theorem submitRequest_alone {sessionId turnId principalId now : String} {access : AccessState}
    {q : AccessRequest} {created : Bool}
    (h : submitRequest repr s.access sessionId turnId principalId now = .ok (access, q, created)) :
    ∃ steps columnName, run (submitStep repr) s (.submit sessionId turnId principalId :: steps)
      = some ⟨access, s.calls ++
          [⟨sessionId, turnId, principalId, columnName, .returned q.requestId created⟩]⟩ := by
  unfold submitRequest at h
  split at h
  · cases h
  · rename_i record hrecord
    split at h
    · cases h
    · rename_i columnName hcolumn
      have hlook : (findRecordByTurn s.access.log sessionId turnId).bind AuditRecord.deniedColumn
          = some columnName := by rw [hrecord, Option.bind_some, hcolumn]
      split at h
      · rename_i existing hexisting
        cases h
        have hfind : s.access.requests.find? (openFor principalId columnName) = some q := hexisting
        -- the select answers, and nothing is inserted
        refine ⟨[.select s.calls.length], columnName, ?_⟩
        simp [run, submitStep, hlook, hfind, SubmitState.setPhase]
      · rename_i hnone
        cases h
        have hfind : s.access.requests.find? (openFor principalId columnName) = none := hnone
        -- no open request: the insert comes at once
        refine ⟨[.select s.calls.length, .insert s.calls.length now], columnName, ?_⟩
        simp [run, submitStep, hlook, hfind, SubmitState.setPhase, SubmitCall.row]

/-! ## Two submissions overlap -/

/-- No key. -/
def noKeys : KeyDb := ⟨[], [], List.nodup_nil⟩

/-- The button is clicked twice: both calls select before either inserts. -/
def doubleSubmit : List SubmitStep :=
  [.record ⟨"s1", "t1", some .deniedColumn, some "NationalID"⟩, .submit "s1" "t1" "analyst-1",
    .submit "s1" "t1" "analyst-1", .select 0, .select 1, .insert 0 "now", .insert 1 "now"]

/-- **Two submissions leave two open requests** for one principal and one column. -/
theorem doubleSubmit_opens_two :
    (∃ s, run (submitStep id) (SubmitState.init noKeys) doubleSubmit = some s ∧
      s.access.requests.map (fun q => (q.requestId, q.requesterPrincipalId, q.columnName, q.status))
        = [(1, "analyst-1", "NationalID", .opened), (2, "analyst-1", "NationalID", .opened)] ∧
      s.calls.map (·.phase) = [.returned 1 true, .returned 2 true]) ∧
    ∀ s, ¬ RunWhere (submitStep id) (KeepsOneOpen id) (SubmitState.init noKeys) doubleSubmit s := by
  refine ⟨⟨_, rfl, by decide, by decide⟩, ?_⟩
  refine not_runWhere_of_run (I := fun s => OneOpen s.access.requests) rfl ?_ ?_ ?_
  · exact fun _ _ => Nat.zero_le 1
  · exact fun _ _ s' _ hkeeps hstep => (hkeeps s' hstep).1
  · exact fun hone => absurd (hone "analyst-1" "NationalID") (by decide)

end LocalSqlAgent
