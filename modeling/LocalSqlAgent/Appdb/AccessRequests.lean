import LocalSqlAgent.Security.ColumnRejections

/-! # Access requests

`appdb.access_requests`: a request names the subject of a guard rejection, taken from the audit log;
approving it removes the first entry of that spelling from every key of the requester that is not
revoked, in the transaction that claims the request. The guard compares column names in upper case,
approval compares entries as written. -/

namespace LocalSqlAgent

/-! ## The tables -/

/-- What an audit record keeps of a turn's guard outcome. -/
structure AuditRecord where
  /-- `session_id`. -/
  sessionId : String
  /-- `turn_id`. -/
  turnId : String
  /-- `guard.reason`, `none` for a statement that passed. -/
  reason : Option Reason
  /-- `guard.subject`. -/
  subject : Option String
  deriving DecidableEq, Repr

/-- The record of a turn the guard decided. -/
def auditRecord (sessionId turnId : String) : Except Rejection Unit → AuditRecord
  | .ok _ => ⟨sessionId, turnId, none, none⟩
  | .error e => ⟨sessionId, turnId, some e.reason, e.subject⟩

/-- `access_requests.status`. -/
inductive RequestStatus where
  | opened
  | approved
  | denied
  deriving DecidableEq, Repr

/-- The stored text of a status. -/
def RequestStatus.text : RequestStatus → String
  | .opened => "open"
  | .approved => "approved"
  | .denied => "denied"

/-- A row of `access_requests`. -/
structure AccessRequest where
  /-- The primary key. -/
  requestId : ℕ
  /-- The turn's session. -/
  sessionId : String
  /-- The turn. -/
  turnId : String
  /-- The requester. -/
  requesterPrincipalId : String
  /-- The subject of the rejection. -/
  columnName : String
  /-- When it was submitted. -/
  createdAt : String
  /-- The decision. -/
  status : RequestStatus
  /-- The reason of a denial. -/
  resolutionNote : Option String
  /-- Who decided. -/
  resolvedBy : Option String
  /-- When. -/
  resolvedAt : Option String
  deriving DecidableEq, Repr

/-- The audit log, newest record first, the requests and the key tables. -/
structure AccessState where
  /-- The audit log. -/
  log : List AuditRecord
  /-- `access_requests`. -/
  requests : List AccessRequest
  /-- The key tables. -/
  db : KeyDb

/-- The exceptions, with their messages. -/
inductive AccessError where
  | turnNotAudited (message : String)
  | notDeniedColumn (message : String)
  | blankReason (message : String)
  | requestNotFound (message : String)
  | alreadyResolved (message : String)
  deriving DecidableEq, Repr

/-- `_ACCESS_REQUEST_REASONS`. -/
def Reason.accessRequest (r : Reason) : Prop := r = .deniedColumn ∨ r = .joinOnlyColumn

instance (r : Reason) : Decidable r.accessRequest := inferInstanceAs (Decidable (_ ∨ _))

/-! ## The calls -/

section Calls

variable (repr : String → String)

/-- `repr` of a column that may be NULL. -/
def reprOption : Option String → String
  | none => "None"
  | some s => repr s

/-- `find_record_by_turn`. -/
def findRecordByTurn (log : List AuditRecord) (sessionId turnId : String) : Option AuditRecord :=
  log.find? fun r => r.sessionId = sessionId ∧ r.turnId = turnId

/-- The column an audit record lets a request name. -/
def AuditRecord.deniedColumn (r : AuditRecord) : Option String :=
  match r.reason, r.subject with
  | some reason, some subject => if reason.accessRequest ∧ subject ≠ "" then some subject else none
  | _, _ => none

/-- **`submit_request`**: the request's row, and whether it is new. -/
def submitRequest (s : AccessState) (sessionId turnId principalId now : String) :
    Except AccessError (AccessState × AccessRequest × Bool) :=
  match findRecordByTurn s.log sessionId turnId with
  | none => .error (.turnNotAudited ("no audit record names session_id=" ++ repr sessionId ++
      " turn_id=" ++ repr turnId ++ " -- nothing to join this request against"))
  | some record =>
    match record.deniedColumn with
    | none => .error (.notDeniedColumn ("session_id=" ++ repr sessionId ++ " turn_id=" ++
        repr turnId ++ " was not a denied-column guard rejection -- there is no single column " ++
        "here to request access to"))
    | some columnName =>
      match s.requests.find? fun q => q.requesterPrincipalId = principalId ∧
          q.columnName = columnName ∧ q.status = .opened with
      | some existing => .ok (s, existing, false)
      | none =>
        let row : AccessRequest := ⟨s.requests.length + 1, sessionId, turnId, principalId, columnName,
          now, .opened, none, none, none⟩
        .ok ({ s with requests := s.requests ++ [row] }, row, true)

/-- The conditional update both decisions claim a request with; `none` is a row count of zero. -/
def claimRequest (s : AccessState) (requestId : ℕ) (decide : AccessRequest → AccessRequest) :
    Option (AccessState × AccessRequest) :=
  (s.requests.find? fun q => q.requestId = requestId ∧ q.status = .opened).map fun row =>
    ({ s with requests := s.requests.map fun q =>
        if q.requestId = requestId ∧ q.status = .opened then decide q else q }, decide row)

/-- The values a decision writes. -/
def AccessRequest.resolve (status : RequestStatus) (note : Option String) (actor now : String)
    (q : AccessRequest) : AccessRequest :=
  { q with status := status, resolutionNote := note, resolvedBy := some actor, resolvedAt := some now }

/-- Why a request could not be claimed. -/
def claimError (s : AccessState) (requestId : ℕ) (ending : String) : AccessError :=
  match s.requests.find? fun q => q.requestId = requestId with
  | none => .requestNotFound ("no access request " ++ toString requestId)
  | some row => .alreadyResolved ("access request " ++ toString requestId ++
      " was already resolved as " ++ repr row.status.text ++ " by " ++
      reprOption repr row.resolvedBy ++ " at " ++ reprOption repr row.resolvedAt ++ "; " ++ ending)

/-- How many keys an approval rewrites. -/
def updatedKeys (db : KeyDb) (principalId columnName : String) : ℕ :=
  db.keys.countP fun r => r.principalId = principalId ∧ r.revokedAt = none ∧
    r.deniedColumns.any (sameEntry isEdgeNoise columnName)

/-- **`approve_request`**: the claim and the key writes, one transaction. -/
def approveRequest (s : AccessState) (requestId : ℕ) (actor now : String) :
    Except AccessError (AccessState × AccessRequest × ℕ) :=
  match claimRequest s requestId (AccessRequest.resolve .approved none actor now) with
  | none => .error (claimError repr s requestId "no key was changed")
  | some (claimed, row) =>
    .ok ({ claimed with
        db := ((KeyMutation.approveRequest row.requesterPrincipalId row.columnName).apply isEdgeNoise
          s.db).getD s.db },
      row, updatedKeys s.db row.requesterPrincipalId row.columnName)

/-- **`deny_request`**. -/
def denyRequest (s : AccessState) (requestId : ℕ) (actor reason now : String) :
    Except AccessError (AccessState × AccessRequest) :=
  if stripText reason = "" then
    .error (.blankReason ("denying an access request requires a non-blank reason -- " ++
      "recorded and shown to the requester, never silently dropped"))
  else
    match claimRequest s requestId (AccessRequest.resolve .denied (some reason) actor now) with
    | none => .error (claimError repr s requestId "no change was made")
    | some claimed => .ok claimed

end Calls

/-- What happens around the requests: a turn the guard decides and the log records, the three calls,
a change of the keys. -/
inductive AccessOp where
  | ask (sessionId turnId : String) (dialect : Dialect) (entries : List String)
      (parsed : List (Option Expr))
  | submit (sessionId turnId principalId now : String)
  | approve (requestId : ℕ) (actor now : String)
  | deny (requestId : ℕ) (actor reason now : String)
  | changeKeys (m : KeyMutation)

/-- One of these. A call that raises leaves the state as it was. -/
def accessStep (E : GuardEnv) (s : AccessState) : AccessOp → Option AccessState
  | .ask sessionId turnId dialect entries parsed =>
    some { s with log := auditRecord sessionId turnId (validateSqlWith E dialect entries parsed) :: s.log }
  | .submit sessionId turnId principalId now =>
    match submitRequest E.repr s sessionId turnId principalId now with
    | .ok (s', _) => some s'
    | .error _ => some s
  | .approve requestId actor now =>
    match approveRequest E.repr s requestId actor now with
    | .ok (s', _) => some s'
    | .error _ => some s
  | .deny requestId actor reason now =>
    match denyRequest E.repr s requestId actor reason now with
    | .ok (s', _) => some s'
    | .error _ => some s
  | .changeKeys m =>
    match m.apply isEdgeNoise s.db with
    | some db => some { s with db := db }
    | none => some s

/-! ## Where requests come from -/

/-- The guard raised a rejection with this reason and subject. -/
def Raised (E : GuardEnv) (reason : Reason) (subject : String) : Prop :=
  ∃ dialect entries parsed e, validateSqlWith E dialect entries parsed = .error e ∧ e.reason = reason ∧
    e.subject = some subject

/-- **A request comes from a rejection** over a column, and names its subject. -/
def RaisedFrom (E : GuardEnv) (reason : Reason) (q : AccessRequest) : Prop :=
  reason.accessRequest ∧ q.columnName ≠ "" ∧ Raised E reason q.columnName

/-- Every record and every request comes from the guard. -/
structure FromGuard (E : GuardEnv) (s : AccessState) : Prop where
  /-- A record with a reason and a subject was raised. -/
  log : ∀ r ∈ s.log, ∀ reason subject, r.reason = some reason → r.subject = some subject →
    Raised E reason subject
  /-- A request was raised. -/
  requests : ∀ q ∈ s.requests, ∃ reason, RaisedFrom E reason q

variable {E : GuardEnv} {s s' : AccessState}

theorem AuditRecord.deniedColumn_eq_some {r : AuditRecord} {column : String}
    (h : r.deniedColumn = some column) :
    ∃ reason, r.reason = some reason ∧ r.subject = some column ∧ reason.accessRequest ∧
      column ≠ "" := by
  unfold AuditRecord.deniedColumn at h
  split at h
  · rename_i reason subject hreason hsubject
    split at h
    · rename_i hok
      cases h
      exact ⟨reason, hreason, hsubject, hok⟩
    · cases h
  · cases h

/-- A decision rewrites one open request, and keeps what it names. -/
theorem claimRequest_eq_some {requestId : ℕ} {decide : AccessRequest → AccessRequest}
    {q : AccessRequest} (h : claimRequest s requestId decide = some (s', q)) :
    s'.log = s.log ∧ s'.db = s.db ∧ (∃ row ∈ s.requests, q = decide row) ∧
      ∀ q' ∈ s'.requests, q' ∈ s.requests ∨ ∃ row ∈ s.requests, q' = decide row := by
  obtain ⟨row, hrow, heq⟩ := Option.map_eq_some_iff.mp h
  cases heq
  refine ⟨rfl, rfl, ⟨row, List.mem_of_find?_eq_some hrow, rfl⟩, ?_⟩
  intro q' hq'
  obtain ⟨q₀, hq₀, rfl⟩ := List.mem_map.mp hq'
  split
  · exact Or.inr ⟨q₀, hq₀, rfl⟩
  · exact Or.inl hq₀

/-- What a claim writes: the decision on the open row of that id. -/
theorem requests_of_claim {requestId : ℕ} {decide : AccessRequest → AccessRequest} {q : AccessRequest}
    (h : claimRequest s requestId decide = some (s', q)) :
    s'.requests = s.requests.map fun q =>
      if q.requestId = requestId ∧ q.status = .opened then decide q else q := by
  obtain ⟨row, -, heq⟩ := Option.map_eq_some_iff.mp h
  cases heq
  rfl

/-- A decision that keeps the column keeps where the requests come from. -/
theorem FromGuard.claim {requestId : ℕ} {decide : AccessRequest → AccessRequest} {q : AccessRequest}
    (hI : FromGuard E s) (h : claimRequest s requestId decide = some (s', q))
    (hdecide : ∀ row, (decide row).columnName = row.columnName) :
    FromGuard E s' ∧ ∃ reason, RaisedFrom E reason q := by
  obtain ⟨hlog, -, ⟨row, hrow, rfl⟩, hrequests⟩ := claimRequest_eq_some h
  have hdecided : ∀ row ∈ s.requests, ∃ reason, RaisedFrom E reason (decide row) := by
    intro row hrow
    obtain ⟨reason, hreason⟩ := hI.requests row hrow
    exact ⟨reason, by rwa [RaisedFrom, hdecide]⟩
  refine ⟨⟨hlog ▸ hI.log, ?_⟩, hdecided row hrow⟩
  intro q' hq'
  rcases hrequests q' hq' with hq' | ⟨row', hrow', rfl⟩
  · exact hI.requests q' hq'
  · exact hdecided row' hrow'

theorem FromGuard.submit {sessionId turnId principalId now : String} {q : AccessRequest}
    {created : Bool} (hI : FromGuard E s)
    (h : submitRequest E.repr s sessionId turnId principalId now = .ok (s', q, created)) :
    FromGuard E s' := by
  unfold submitRequest at h
  split at h
  · cases h
  · rename_i record hrecord
    split at h
    · cases h
    · rename_i columnName hcolumn
      split at h
      · cases h
        exact hI
      · cases h
        refine ⟨hI.log, ?_⟩
        intro q hq
        rcases List.mem_append.mp hq with hq | hq
        · exact hI.requests q hq
        · -- the new row names the subject of the record
          rw [List.mem_singleton] at hq
          subst hq
          obtain ⟨reason, hreason, hsubject, haccess, hne⟩ := AuditRecord.deniedColumn_eq_some hcolumn
          have hlog : record ∈ s.log := List.mem_of_find?_eq_some hrecord
          exact ⟨reason, haccess, hne, hI.log record hlog reason columnName hreason hsubject⟩

/-- The state after an approval: the claim, and the key rows rewritten one by one. -/
theorem approveRequest_ok {requestId updated : ℕ} {actor now : String} {q : AccessRequest}
    (h : approveRequest E.repr s requestId actor now = .ok (s', q, updated)) :
    (∃ claimed, claimRequest s requestId (AccessRequest.resolve .approved none actor now) =
        some (claimed, q) ∧
      s'.log = claimed.log ∧ s'.requests = claimed.requests) ∧
    s'.db.keys = s.db.keys.map (approveOn isEdgeNoise q.requesterPrincipalId q.columnName) := by
  unfold approveRequest at h
  split at h
  · cases h
  · rename_i claimed row hclaim
    cases h
    exact ⟨⟨claimed, hclaim, rfl, rfl⟩, rfl⟩

theorem FromGuard.approve {requestId updated : ℕ} {actor now : String} {q : AccessRequest}
    (hI : FromGuard E s) (h : approveRequest E.repr s requestId actor now = .ok (s', q, updated)) :
    FromGuard E s' ∧ ∃ reason, RaisedFrom E reason q := by
  obtain ⟨⟨claimed, hclaim, hlog, hrequests⟩, -⟩ := approveRequest_ok h
  obtain ⟨hclaimed, hq⟩ := hI.claim hclaim fun _ => rfl
  exact ⟨⟨hlog ▸ hclaimed.log, hrequests ▸ hclaimed.requests⟩, hq⟩

/-- **Every step keeps it.** -/
theorem FromGuard.step {op : AccessOp} (hI : FromGuard E s) (h : accessStep E s op = some s') :
    FromGuard E s' := by
  cases op with
  | ask sessionId turnId dialect entries parsed =>
    cases h
    refine ⟨?_, hI.requests⟩
    intro r hr reason subject hreason hsubject
    rcases List.mem_cons.mp hr with rfl | hr
    · cases hguard : validateSqlWith E dialect entries parsed with
      | ok _ =>
        rw [hguard] at hreason
        cases hreason
      | error e =>
        rw [hguard] at hreason hsubject
        cases hreason
        exact ⟨dialect, entries, parsed, e, hguard, rfl, hsubject⟩
    · exact hI.log r hr reason subject hreason hsubject
  | submit sessionId turnId principalId now =>
    rw [accessStep] at h
    split at h
    · rename_i answer hsubmit
      cases h
      exact hI.submit hsubmit
    · cases h
      exact hI
  | approve requestId actor now =>
    rw [accessStep] at h
    split at h
    · rename_i answer happrove
      cases h
      exact (hI.approve happrove).1
    · cases h
      exact hI
  | deny requestId actor reason now =>
    rw [accessStep] at h
    split at h
    · rename_i answer hdeny
      cases h
      unfold denyRequest at hdeny
      split at hdeny
      · cases hdeny
      · split at hdeny
        · cases hdeny
        · rename_i claimed hclaim
          cases hdeny
          exact (hI.claim hclaim fun _ => rfl).1
    · cases h
      exact hI
  | changeKeys m =>
    rw [accessStep] at h
    split at h <;> · cases h; exact ⟨hI.log, hI.requests⟩

theorem fromGuard_of_run {db : KeyDb} {ops : List AccessOp}
    (h : run (accessStep E) ⟨[], [], db⟩ ops = some s) : FromGuard E s :=
  (run_eq_some_iff.mp h).invariant (I := FromGuard E) ⟨fun _ hr => (nomatch hr), fun _ hq => (nomatch hq)⟩
    fun _ _ _ hI _ hstep => hI.step hstep

/-! ## What an approval grants -/

/-- Two subjects of one kind of rejection mean the same column: equal in upper case, or entries of
the same scope. -/
def SameColumn (E : GuardEnv) (reason : Reason) (subject column : String) : Prop :=
  match reason with
  | .joinOnlyColumn => SameRestriction E.schema.case E.repr subject column
  | _ => E.schema.case.upper subject = E.schema.case.upper column

/-- An entry makes the guard refuse a column, for that kind of reason. -/
def Blocks (E : GuardEnv) (reason : Reason) (entry column : String) : Prop :=
  match reason with
  | .joinOnlyColumn => SameRestriction E.schema.case E.repr entry column
  | _ => DeniesColumn E.schema.case E.repr entry column

/-- A rejection refuses a statement for a column. -/
def RefusedFor (E : GuardEnv) (reason : Reason) (column : String) (e : Rejection) : Prop :=
  e.reason = reason ∧ ∃ s, e.subject = some s ∧ SameColumn E reason s column

/-- An order in which the set of a key's entries, as its owner's principal carries them, may be
read. -/
def ReadingOrder (row : KeyRow) (order : List String) : Prop :=
  order.Nodup ∧ ∀ x, x ∈ order ↔ x ∈ normalizeDeniedEntries isEdgeNoise row.deniedColumns

/-- **A key lets the column through**: no statement is refused for it. -/
def GrantedOn (E : GuardEnv) (reason : Reason) (column : String) (row : KeyRow) : Prop :=
  ∀ dialect order parsed e, ReadingOrder row order →
    validateSqlWith E dialect order parsed = .error e → ¬ RefusedFor E reason column e

/-- An entry that approving a request for a column leaves on a key: any but the first one the request
names as it is spelled. -/
def Stays (column : String) (row : KeyRow) (entry : String) : Prop :=
  ∃ before after, row.deniedColumns = before ++ entry :: after ∧
    ¬ (sameEntry isEdgeNoise column entry = true ∧
      ∀ e ∈ before, sameEntry isEdgeNoise column e = false)

/-- **The condition**, on a key before the approval: no entry that stays blocks the column, unless one
is malformed (and then the key's every statement is refused for that). -/
def Cleared (E : GuardEnv) (reason : Reason) (column : String) (row : KeyRow) : Prop :=
  (∃ entry, Stays column row entry ∧ Malformed E.schema.case E.repr entry) ∨
    ∀ entry, Stays column row entry → ¬ Blocks E reason entry column

/-- What is left after the first element with a property is removed. -/
theorem mem_removeFirst {α : Type} {p : α → Bool} {l : List α} {a : α} :
    a ∈ removeFirst p l ↔
      ∃ before after, l = before ++ a :: after ∧ ¬ (p a = true ∧ ∀ b ∈ before, p b = false) := by
  induction l with
  | nil => simp [removeFirst]
  | cons b rest ih =>
    rw [removeFirst]
    by_cases hb : p b = true
    · rw [if_pos hb]
      constructor
      · intro ha
        obtain ⟨before, after, rfl⟩ := List.append_of_mem ha
        refine ⟨b :: before, after, rfl, ?_⟩
        rintro ⟨-, hbefore⟩
        rw [hbefore b List.mem_cons_self] at hb
        cases hb
      · rintro ⟨before, after, heq, hnot⟩
        rcases List.cons_eq_append_iff.mp heq with ⟨rfl, hcons⟩ | ⟨before', rfl, rfl⟩
        · obtain ⟨rfl, rfl⟩ := List.cons.inj hcons
          exact absurd ⟨hb, fun _ hx => (nomatch hx)⟩ hnot
        · exact List.mem_append_right _ List.mem_cons_self
    · rw [if_neg hb, List.mem_cons, ih]
      rw [Bool.not_eq_true] at hb
      constructor
      · rintro (rfl | ⟨before, after, rfl, hnot⟩)
        · exact ⟨[], rest, rfl, fun h => by rw [hb] at h; cases h.1⟩
        · refine ⟨b :: before, after, rfl, ?_⟩
          rintro ⟨ha, hbefore⟩
          exact hnot ⟨ha, fun x hx => hbefore x (List.mem_cons_of_mem _ hx)⟩
      · rintro ⟨before, after, heq, hnot⟩
        rcases List.cons_eq_append_iff.mp heq with ⟨rfl, hcons⟩ | ⟨before', rfl, rfl⟩
        · obtain ⟨rfl, rfl⟩ := List.cons.inj hcons
          exact Or.inl rfl
        · refine Or.inr ⟨before', after, rfl, ?_⟩
          rintro ⟨ha, hbefore⟩
          exact hnot ⟨ha, List.forall_mem_cons.mpr ⟨hb, hbefore⟩⟩

theorem removeFirst_of_none {α : Type} {p : α → Bool} {l : List α} (h : l.any p = false) :
    removeFirst p l = l := by
  induction l with
  | nil => rfl
  | cons a rest ih =>
    rw [List.any_cons, Bool.or_eq_false_iff] at h
    rw [removeFirst, if_neg (by simp [h.1]), ih h.2]

/-- The entries of a live key of the requester after the approval. -/
theorem deniedColumns_approveOn {noise : EdgeNoise} {principalId column : String} {row : KeyRow}
    (hprincipal : row.principalId = principalId) (hlive : row.revokedAt = none) :
    (approveOn noise principalId column row).deniedColumns =
      if row.deniedColumns.any (sameEntry noise column) = true then
        normalizeDeniedEntries noise (removeFirst (sameEntry noise column) row.deniedColumns)
      else row.deniedColumns := by
  unfold approveOn
  by_cases hany : row.deniedColumns.any (sameEntry noise column) = true
  · rw [if_pos ⟨hprincipal, hlive, hany⟩, if_pos hany]
  · rw [if_neg (fun h => hany h.2.2), if_neg hany]

/-- Normalising a list reads each entry's text. -/
theorem normalizeDeniedEntries_eq (entries : List String) :
    normalizeDeniedEntries isEdgeNoise entries = entries.map entryText := rfl

/-- What a live key of the requester holds after the approval: the texts of the entries that stay. -/
theorem mem_normalizeDeniedEntries_approveOn {principalId column : String} {row : KeyRow} {x : String}
    (hprincipal : row.principalId = principalId) (hlive : row.revokedAt = none) :
    x ∈ normalizeDeniedEntries isEdgeNoise
        (approveOn isEdgeNoise principalId column row).deniedColumns ↔
      ∃ entry, Stays column row entry ∧ entryText entry = x := by
  have hleft : normalizeDeniedEntries isEdgeNoise
      (approveOn isEdgeNoise principalId column row).deniedColumns =
      (removeFirst (sameEntry isEdgeNoise column) row.deniedColumns).map entryText := by
    rw [deniedColumns_approveOn hprincipal hlive]
    split
    · rw [normalizeDeniedEntries_eq, normalizeDeniedEntries_eq, List.map_map]
      refine List.map_congr_left fun entry _ => ?_
      rw [Function.comp_apply, entryText_idem]
    · rename_i hany
      rw [normalizeDeniedEntries_eq, removeFirst_of_none (Bool.not_eq_true _ ▸ hany)]
  rw [hleft, List.mem_map]
  simp only [mem_removeFirst, Stays]

theorem blocks_entryText {reason : Reason} {entry column : String} :
    Blocks E reason (entryText entry) column ↔ Blocks E reason entry column := by
  unfold Blocks
  split <;> simp only [SameRestriction, DeniesColumn, readDeniedEntry_entryText]

/-- What refuses a column in one spelling refuses it in every other. -/
theorem Blocks.of_sameColumn {reason : Reason} {entry subject column : String}
    (h : Blocks E reason entry subject) (hsame : SameColumn E reason subject column) :
    Blocks E reason entry column := by
  unfold Blocks SameColumn at *
  split at hsame
  · obtain ⟨s, s', hs, hs', hkey⟩ := h
    obtain ⟨t, t', ht, ht', hkey'⟩ := hsame
    rw [hs'] at ht
    cases ht
    exact ⟨s, t', hs, ht', hkey.trans hkey'⟩
  · rename_i hreason
    split at h
    · exact absurd rfl hreason
    · obtain ⟨names, hnames, hmem⟩ := h
      exact ⟨names, hnames, hsame ▸ hmem⟩

/-- **A rejection over a column is an entry's doing.** -/
theorem exists_blocks_of_refused {reason : Reason} (hreason : reason.accessRequest)
    {dialect : Dialect} {order : List String} {parsed : List (Option Expr)} {e : Rejection}
    {column : String} (h : validateSqlWith E dialect order parsed = .error e)
    (hrefused : RefusedFor E reason column e) :
    (∀ entry ∈ order, ¬ Malformed E.schema.case E.repr entry) ∧
      ∃ entry ∈ order, Blocks E reason entry column := by
  obtain ⟨hreasonE, subject, hsubject, hsame⟩ := hrefused
  constructor
  · intro entry hentry hmalformed
    have hnot := validateSqlWith_failsOnly_of_malformed ⟨entry, hentry, hmalformed⟩ e h
    rcases hreason with rfl | rfl
    · exact hnot.1 hreasonE
    · exact hnot.2 hreasonE
  · have hnames := validateSqlWith_failsOnly e h
    rcases hreason with rfl | rfl
    · obtain ⟨entry, hentry, hdenies⟩ := hnames.denied hreasonE subject hsubject
      have hblocks : Blocks E .deniedColumn entry subject := hdenies
      exact ⟨entry, hentry, hblocks.of_sameColumn hsame⟩
    · obtain ⟨entry, hentry, hscope⟩ := hnames.joinOnly hreasonE subject hsubject
      have hblocks : Blocks E .joinOnlyColumn entry subject := hscope
      exact ⟨entry, hentry, hblocks.of_sameColumn hsame⟩

section Granted

variable {reason : Reason} {principalId column : String} {row : KeyRow}

/-- A cleared key lets the column through. -/
theorem GrantedOn.of_cleared (hreason : reason.accessRequest) (hprincipal : row.principalId = principalId)
    (hlive : row.revokedAt = none) (h : Cleared E reason column row) :
    GrantedOn E reason column (approveOn isEdgeNoise principalId column row) := by
  intro dialect order parsed e horder herror hrefused
  obtain ⟨hread, entry, hentry, hblocks⟩ := exists_blocks_of_refused hreason herror hrefused
  have hmem : ∀ x, x ∈ order ↔ ∃ entry, Stays column row entry ∧ entryText entry = x :=
    fun x => (horder.2 x).trans (mem_normalizeDeniedEntries_approveOn hprincipal hlive)
  rcases h with ⟨bad, hstays, hmalformed⟩ | hfree
  · refine hread (entryText bad) ((hmem _).mpr ⟨bad, hstays, rfl⟩) ?_
    rwa [Malformed, readDeniedEntry_entryText]
  · obtain ⟨entry', hstays, rfl⟩ := (hmem entry).mp hentry
    exact hfree entry' hstays (blocks_entryText.mp hblocks)

/-- A key that lets a denied column through is cleared: otherwise the column's name alone is
refused. -/
theorem cleared_of_grantedOn (hprincipal : row.principalId = principalId)
    (hlive : row.revokedAt = none) (hempty : column ≠ "") (hstar : column ≠ "*")
    (h : GrantedOn E .deniedColumn column (approveOn isEdgeNoise principalId column row)) :
    Cleared E .deniedColumn column row := by
  by_contra hnot
  rw [Cleared, not_or] at hnot
  obtain ⟨hreadable, hblocked⟩ := hnot
  push Not at hblocked
  obtain ⟨entry, hstays, hblocks⟩ := hblocked
  have hmem : ∀ x, x ∈ normalizeDeniedEntries isEdgeNoise
      (approveOn isEdgeNoise principalId column row).deniedColumns ↔
        ∃ entry, Stays column row entry ∧ entryText entry = x :=
    fun _ => mem_normalizeDeniedEntries_approveOn hprincipal hlive
  -- the set of the entries, in the order they are stored
  have horder : ReadingOrder (approveOn isEdgeNoise principalId column row)
      (normalizeDeniedEntries isEdgeNoise
        (approveOn isEdgeNoise principalId column row).deniedColumns).dedup :=
    ⟨List.nodup_dedup _, fun _ => List.mem_dedup⟩
  have hreads : ∀ x ∈ (normalizeDeniedEntries isEdgeNoise
      (approveOn isEdgeNoise principalId column row).deniedColumns).dedup,
      ¬ Malformed E.schema.case E.repr x := by
    intro x hx hmalformed
    obtain ⟨bad, hbad, rfl⟩ := (hmem x).mp (List.mem_dedup.mp hx)
    rw [Malformed, readDeniedEntry_entryText] at hmalformed
    exact hreadable ⟨bad, hbad, hmalformed⟩
  have hentry := List.mem_dedup.mpr ((hmem _).mpr ⟨entry, hstays, rfl⟩)
  have hdenies : DeniesColumn E.schema.case E.repr (entryText entry) column := by
    obtain ⟨names, hread, hcolumn⟩ := hblocks
    exact ⟨names, (readDeniedEntry_entryText entry).trans hread, hcolumn⟩
  obtain ⟨e, herror, hreason, hsubject⟩ :=
    validateSqlWith_selectColumn hreads hentry hdenies hempty hstar
  exact h .tsql _ _ e horder herror ⟨hreason, column, hsubject, rfl⟩

end Granted

/-! ## A request raised by a star -/

/-- One table with a denied column. -/
def peopleSchema : Schema where
  case := asciiCase
  tables := [{ key := "hr.Person", bare := "Person", qualifier := ["hr"],
               columns := ["Name", "NationalID"] }]
  keys_nodup := by decide
  bare_ne_empty := by decide
  columns_ne_nil := by decide

/-- A guard over it. -/
def peopleEnv : GuardEnv := { salesEnv with schema := peopleSchema }

open Expr in
/-- `SELECT * FROM hr.Person`. -/
def everyone : Expr := selectFrom [] [.ofCls .star] (tableRef "hr" "Person" "")

/-- The analyst's star is refused, and the analyst asks for the column the refusal names. -/
def starRequest : List AccessOp :=
  [.ask "s1" "t1" .tsql ["NationalID"] [some everyone], .submit "s1" "t1" "analyst-1" "t0"]

/-- The audit record of the refusal. -/
def starRecord : AuditRecord := ⟨"s1", "t1", some .deniedColumn, some "nationalid"⟩

/-- The request. -/
def starAccessRequest : AccessRequest :=
  ⟨1, "s1", "t1", "analyst-1", "nationalid", "t0", .opened, none, none, none⟩

theorem everyone_refused : validateSqlWith peopleEnv .tsql ["NationalID"] [some everyone] =
    .error (.policy ("Forbidden keyword detected: '*' would expose denied column(s): " ++
      "['nationalid']") .deniedColumn "nationalid") := by
  decide

theorem run_starRequest : run (accessStep peopleEnv) ⟨[], [], analystDb⟩ starRequest =
    some ⟨[starRecord], [starAccessRequest], analystDb⟩ := by
  simp only [starRequest, run_cons, run_nil, accessStep, everyone_refused, Option.bind_some]
  rfl

theorem approve_starRequest : ∃ s',
    approveRequest peopleEnv.repr ⟨[starRecord], [starAccessRequest], analystDb⟩ 1 "admin" "t1" =
      .ok (s', starAccessRequest.resolve .approved none "admin" "t1", 0) := by
  have hupdated : updatedKeys analystDb "analyst-1" "nationalid" = 0 := by decide
  rw [← hupdated]
  exact ⟨_, rfl⟩

end LocalSqlAgent
