import LocalSqlAgent.Appdb.AccessRequests
import LocalSqlAgent.Lib.Pool

/-! # Overlapping decisions on one request

`approve_request` and `deny_request` statement by statement. The first statement of a call is the
conditional update, so from there to the commit the call holds the write lock and works on a copy nobody
else sees; a failure drops the copy. The decided row is read back after the commit.

* **`serial_of_run`**: in every run at most one call decides the request, and the tables are as they were
  or as `approveRequest` or `denyRequest` leaves them.
* **`decidedOnce_iff`**: which runs also leave no trace of a call that raised. -/

namespace LocalSqlAgent

/-- Which decision a call makes. -/
inductive DecisionKind where
  /-- `approve_request`. -/
  | approve
  /-- `deny_request`, with its reason. -/
  | deny (reason : String)
  deriving DecidableEq, Repr

/-- How far a call has come. -/
inductive DecisionPhase where
  /-- The conditional update is to come. -/
  | waiting
  /-- In the transaction: the copy it works on, the key rows still to visit, the keys updated so far. -/
  | writing (now : String) (work : AccessState) (row : AccessRequest) (pending : List KeyRow) (updated : ℕ)
  /-- Committed; the row is to be read back. -/
  | committed (now : String) (updated : ℕ)
  /-- It returned the row and the number of keys updated. -/
  | returned (now : String) (row : AccessRequest) (updated : ℕ)
  /-- It raised, with the error where it is one of the module's own. -/
  | raised (error : Option AccessError)
  /-- It raised after its commit. -/
  | raisedLate (now : String) (updated : ℕ)

/-- A call of `approve_request` or `deny_request`. -/
structure DecisionCall where
  /-- Which of them. -/
  kind : DecisionKind
  /-- `actor_principal_id`. -/
  actor : String
  /-- How far it has come. -/
  phase : DecisionPhase

/-- The committed tables and the calls. -/
structure DecisionState where
  /-- What every connection reads. -/
  access : AccessState
  /-- The calls, in the order they were made. -/
  calls : List DecisionCall

/-- What happens next. -/
inductive DecisionStep where
  /-- A call is made. -/
  | call (kind : DecisionKind) (actor : String)
  /-- The call at an index takes the write lock with its conditional update. -/
  | claim (i : ℕ) (now : String)
  /-- The call at an index visits the next key row. -/
  | writeKey (i : ℕ)
  /-- The call at an index commits. -/
  | commit (i : ℕ)
  /-- The call at an index reads the row back. -/
  | read (i : ℕ)
  /-- A statement of the call at an index fails. -/
  | fail (i : ℕ)

/-- The call holds the write lock. -/
def DecisionPhase.isWriting : DecisionPhase → Bool
  | .writing .. => true
  | _ => false

/-- The call committed a decision. -/
def DecisionPhase.decided : DecisionPhase → Bool
  | .committed .. | .returned .. | .raisedLate .. => true
  | _ => false

/-- The write `_write_denied_columns`. -/
def writeDeniedColumns (db : KeyDb) (keySha256 : String) (deniedColumns : List String) : KeyDb :=
  db.mapRows
    (onKey keySha256 fun r => { r with deniedColumns := normalizeDeniedEntries isEdgeNoise deniedColumns })
    fun r => by unfold onKey; split <;> rfl

/-- A key row the approval rewrites: not revoked, and it denies the column. -/
def grantsOn (columnName : String) (key : KeyRow) : Bool :=
  key.revokedAt = none ∧ key.deniedColumns.any (sameEntry isEdgeNoise columnName)

/-- The body of the loop over the key rows. -/
def visitKey (columnName : String) (db : KeyDb) (key : KeyRow) : KeyDb :=
  if grantsOn columnName key then
    writeDeniedColumns db key.keySha256 (removeFirst (sameEntry isEdgeNoise columnName) key.deniedColumns)
  else db

/-- The values a decision writes on the request. -/
def DecisionKind.resolve (kind : DecisionKind) (actor now : String) : AccessRequest → AccessRequest :=
  match kind with
  | .approve => AccessRequest.resolve .approved none actor now
  | .deny reason => AccessRequest.resolve .denied (some reason) actor now

/-- How the message of a lost claim ends. -/
def DecisionKind.ending : DecisionKind → String
  | .approve => "no key was changed"
  | .deny _ => "no change was made"

/-- The key rows a decision visits. -/
def DecisionKind.keys (kind : DecisionKind) (db : KeyDb) (row : AccessRequest) : List KeyRow :=
  match kind with
  | .approve => db.keys.filter fun key => key.principalId = row.requesterPrincipalId
  | .deny _ => []

/-- A call reaches another phase. -/
def DecisionState.setPhase (s : DecisionState) (i : ℕ) (call : DecisionCall) (phase : DecisionPhase) :
    DecisionState :=
  { s with calls := s.calls.set i { call with phase := phase } }

section Interleaved

variable (repr : String → String) (requestId : ℕ)

/-- A call up to its first statement: a denial without a reason raises. -/
def newDecision (kind : DecisionKind) (actor : String) : DecisionCall :=
  match kind with
  | .approve => ⟨kind, actor, .waiting⟩
  | .deny reason =>
    if stripText reason = "" then
      ⟨kind, actor, .raised (some (.blankReason ("denying an access request requires a non-blank reason -- " ++
        "recorded and shown to the requester, never silently dropped")))⟩
    else ⟨kind, actor, .waiting⟩

/-- **One step.** -/
def decisionStep (s : DecisionState) : DecisionStep → Option DecisionState
  | .call kind actor => some { s with calls := s.calls ++ [newDecision kind actor] }
  | .claim i now =>
    match s.calls[i]? with
    | some call =>
      match call.phase with
      | .waiting =>
        -- the write lock is free
        if s.calls.any fun c => c.phase.isWriting then none
        else
          match claimRequest s.access requestId (call.kind.resolve call.actor now) with
          | some (work, row) =>
            some (s.setPhase i call (.writing now work row (call.kind.keys work.db row) 0))
          | none =>
            some (s.setPhase i call (.raised (some (claimError repr s.access requestId call.kind.ending))))
      | _ => none
    | none => none
  | .writeKey i =>
    match s.calls[i]? with
    | some call =>
      match call.phase with
      | .writing now work row (key :: pending) updated =>
        some (s.setPhase i call (.writing now { work with db := visitKey row.columnName work.db key } row
          pending (updated + if grantsOn row.columnName key then 1 else 0)))
      | _ => none
    | none => none
  | .commit i =>
    match s.calls[i]? with
    | some call =>
      match call.phase with
      | .writing now work _ [] updated =>
        some (DecisionState.setPhase { s with access := work } i call (.committed now updated))
      | _ => none
    | none => none
  | .read i =>
    match s.calls[i]? with
    | some call =>
      match call.phase with
      | .committed now updated =>
        match s.access.requests.find? fun q => q.requestId = requestId with
        | some row => some (s.setPhase i call (.returned now row updated))
        | none => some (s.setPhase i call (.raisedLate now updated))
      | _ => none
    | none => none
  | .fail i =>
    match s.calls[i]? with
    | some call =>
      match call.phase with
      -- before the commit the transaction is rolled back
      | .waiting | .writing .. => some (s.setPhase i call (.raised none))
      | .committed now updated => some (s.setPhase i call (.raisedLate now updated))
      | _ => none
    | none => none

/-- The decision as one transaction. -/
def decideRequest (access : AccessState) (kind : DecisionKind) (actor now : String) :
    Except AccessError (AccessState × AccessRequest × ℕ) :=
  match kind with
  | .approve => approveRequest repr access requestId actor now
  | .deny reason => (denyRequest repr access requestId actor reason now).map fun r => (r.1, r.2, 0)

end Interleaved

/-! ## The transaction -/

/-- What a decision does to one key row. -/
def DecisionKind.onRow (kind : DecisionKind) (row : AccessRequest) : KeyRow → KeyRow :=
  match kind with
  | .approve => approveOn isEdgeNoise row.requesterPrincipalId row.columnName
  | .deny _ => id

/-- **The copy a call works on**: the claim is written, and the key rows it visits are rewritten up to the
pending ones. -/
structure WorkOk (requestId : ℕ) (before : AccessState) (call : DecisionCall) (now : String) (work : AccessState)
    (row : AccessRequest) (pending : List KeyRow) (updated : ℕ) : Prop where
  /-- The request is claimed. -/
  claimed : ∃ claimed, claimRequest before requestId (call.kind.resolve call.actor now) = some (claimed, row) ∧
    work.log = claimed.log ∧ work.requests = claimed.requests
  /-- A denial gave its reason. -/
  reason : ∀ text, call.kind = .deny text → stripText text ≠ ""
  /-- The rows still to visit are as they were, the others rewritten. -/
  keys : work.db.keys = before.db.keys.map fun r => if r ∈ pending then r else call.kind.onRow row r
  /-- The roles are untouched. -/
  roles : work.db.roles = before.db.roles
  /-- The pending rows are some of the rows to visit, each once. -/
  sublist : pending.Sublist (call.kind.keys before.db row)
  /-- The keys updated so far, and those that will be. -/
  count : updated + pending.countP (grantsOn row.columnName)
    = (call.kind.keys before.db row).countP (grantsOn row.columnName)

variable {repr : String → String} {requestId : ℕ} {before work access : AccessState} {call : DecisionCall}
  {now : String} {row : AccessRequest} {pending : List KeyRow} {updated i : ℕ} {key : KeyRow}
  {s s' : DecisionState} {kind : DecisionKind} {actor : String}

theorem claimRequest_frame {decide : AccessRequest → AccessRequest}
    (h : claimRequest before requestId decide = some (work, row)) : work.log = before.log ∧ work.db = before.db := by
  obtain ⟨q, -, heq⟩ := Option.map_eq_some_iff.mp h
  cases heq
  exact ⟨rfl, rfl⟩

/-- A decision visits rows of the table. -/
theorem DecisionKind.keys_sublist (kind : DecisionKind) (db : KeyDb) (row : AccessRequest) :
    (kind.keys db row).Sublist db.keys := by
  cases kind with
  | approve => exact List.filter_sublist
  | deny reason => exact List.nil_sublist _

/-- A row an approval does not grant on is left as it is. -/
theorem approveOn_of_not_grants {principalId columnName : String} (h : grantsOn columnName key = false) :
    approveOn isEdgeNoise principalId columnName key = key := by
  unfold grantsOn at h
  unfold approveOn
  rw [decide_eq_false_iff_not] at h
  exact if_neg fun hrow => h hrow.2

/-- A claim opens the transaction with every visited row pending. -/
theorem workOk_claim (hreason : ∀ text, call.kind = .deny text → stripText text ≠ "")
    (h : claimRequest before requestId (call.kind.resolve call.actor now) = some (work, row)) :
    WorkOk requestId before call now work row (call.kind.keys work.db row) 0 := by
  obtain ⟨-, hdb⟩ := claimRequest_frame h
  rw [hdb]
  refine ⟨⟨work, h, rfl, rfl⟩, hreason, ?_, by rw [hdb], List.Sublist.refl _, Nat.zero_add _⟩
  · rw [hdb]
    refine (List.map_id' before.db.keys).symm.trans (List.map_congr_left fun r hr => ?_)
    split
    · rfl
    · rename_i hout
      cases hkind : call.kind with
      | approve =>
        -- a row of somebody else
        rw [hkind] at hout
        refine (if_neg fun hrow => hout (List.mem_filter.mpr ⟨hr, ?_⟩)).symm
        exact decide_eq_true hrow.1
      | deny reason => rfl

theorem DecisionKind.onRow_keySha256 (kind : DecisionKind) (row : AccessRequest) (r : KeyRow) :
    (kind.onRow row r).keySha256 = r.keySha256 := by
  cases kind with
  | approve =>
    unfold DecisionKind.onRow approveOn
    dsimp only
    split <;> rfl
  | deny reason => rfl

/-- What a visit of `key` does to each row of the table. -/
def visitOn (columnName : String) (key : KeyRow) : KeyRow → KeyRow :=
  if grantsOn columnName key then
    onKey key.keySha256 fun r => { r with
      deniedColumns := normalizeDeniedEntries isEdgeNoise
        (removeFirst (sameEntry isEdgeNoise columnName) key.deniedColumns) }
  else id

theorem visitKey_keys (columnName : String) (db : KeyDb) (key : KeyRow) :
    (visitKey columnName db key).keys = db.keys.map (visitOn columnName key) := by
  unfold visitKey visitOn
  split
  · rfl
  · exact (List.map_id _).symm

theorem visitKey_roles (columnName : String) (db : KeyDb) (key : KeyRow) :
    (visitKey columnName db key).roles = db.roles := by
  unfold visitKey
  split <;> rfl

theorem visitOn_of_ne {columnName : String} {r : KeyRow} (h : r.keySha256 ≠ key.keySha256) :
    visitOn columnName key r = r := by
  unfold visitOn
  split
  · exact if_neg h
  · rfl

/-- The visited row becomes what the approval makes of it. -/
theorem visitOn_self {principalId columnName : String} (hprincipal : key.principalId = principalId) :
    visitOn columnName key key = approveOn isEdgeNoise principalId columnName key := by
  unfold visitOn
  split
  · rename_i hgrants
    unfold grantsOn at hgrants
    unfold onKey approveOn
    rw [if_pos rfl]
    exact (if_pos ⟨hprincipal, of_decide_eq_true hgrants⟩).symm
  · rename_i hgrants
    exact (approveOn_of_not_grants (Bool.eq_false_iff.mpr hgrants)).symm

/-- **Visiting the next row** rewrites it and no other. -/
theorem WorkOk.visit (h : WorkOk requestId before call now work row (key :: pending) updated) :
    WorkOk requestId before call now { work with db := visitKey row.columnName work.db key } row pending
      (updated + if grantsOn row.columnName key then 1 else 0) := by
  have hrows := h.sublist.trans (call.kind.keys_sublist before.db row)
  have hkey : key ∈ before.db.keys := hrows.subset List.mem_cons_self
  have hnodup : (key :: pending).Nodup := (List.Nodup.of_map _ before.db.keys_nodup).sublist hrows
  have happrove : call.kind = .approve ∧ key.principalId = row.requesterPrincipalId := by
    have hvisited := h.sublist.subset List.mem_cons_self
    cases hkind : call.kind with
    | approve =>
      rw [hkind] at hvisited
      exact ⟨rfl, of_decide_eq_true (List.mem_filter.mp hvisited).2⟩
    | deny reason =>
      -- a denial has no row to visit
      rw [hkind] at hvisited
      cases hvisited
  obtain ⟨hkind, hprincipal⟩ := happrove
  refine ⟨h.claimed, h.reason, ?_, (visitKey_roles _ _ _).trans h.roles,
    (List.sublist_cons_self key pending).trans h.sublist, ?_⟩
  · show (visitKey row.columnName work.db key).keys = _
    rw [visitKey_keys, h.keys, List.map_map]
    refine List.map_congr_left fun r hr => ?_
    rw [Function.comp_apply]
    by_cases heq : r = key
    · -- the row leaves the pending ones with its new entries
      subst heq
      rw [if_pos List.mem_cons_self, if_neg (List.nodup_cons.mp hnodup).1, hkind]
      exact visitOn_self hprincipal
    · rw [if_congr (List.mem_cons.trans (or_iff_right heq)) rfl rfl]
      refine visitOn_of_ne fun hsame => heq (List.inj_on_of_nodup_map before.db.keys_nodup hr hkey ?_)
      split at hsame
      · exact hsame
      · exact (call.kind.onRow_keySha256 row r).symm.trans hsame
  · have hcount := h.count
    rw [List.countP_cons] at hcount
    omega

theorem KeyDb.eq_of_tables {db db' : KeyDb} (hkeys : db.keys = db'.keys) (hroles : db.roles = db'.roles) :
    db = db' := by
  cases db
  cases db'
  cases hkeys
  cases hroles
  rfl

theorem AccessState.eq_of_tables {access access' : AccessState} (hlog : access.log = access'.log)
    (hrequests : access.requests = access'.requests) (hdb : access.db = access'.db) : access = access' := by
  cases access
  cases access'
  cases hlog
  cases hrequests
  cases hdb
  rfl

/-- The keys an approval updates, counted over the requester's rows. -/
theorem updatedKeys_eq (db : KeyDb) :
    updatedKeys db row.requesterPrincipalId row.columnName
      = (DecisionKind.approve.keys db row).countP (grantsOn row.columnName) := by
  unfold updatedKeys DecisionKind.keys
  rw [List.countP_filter]
  congr 1
  funext r
  simp only [grantsOn]
  by_cases h : r.principalId = row.requesterPrincipalId <;> simp [h]

/-- **The commit**: with no row pending, the copy and the count are what the decision as one transaction
leaves. -/
theorem WorkOk.commit (h : WorkOk requestId before call now work row [] updated) :
    decideRequest repr requestId before call.kind call.actor now = .ok (work, row, updated) := by
  obtain ⟨claimed, hclaim, hlog, hrequests⟩ := h.claimed
  obtain ⟨hlogClaimed, hdbClaimed⟩ := claimRequest_frame hclaim
  have hkeys : work.db.keys = before.db.keys.map (call.kind.onRow row) := by
    rw [h.keys]
    exact List.map_congr_left fun r _ => if_neg List.not_mem_nil
  have hcount : updated = (call.kind.keys before.db row).countP (grantsOn row.columnName) := by
    rw [← h.count, List.countP_nil, Nat.add_zero]
  cases hkind : call.kind with
  | approve =>
    rw [hkind] at hclaim hkeys hcount
    have hwork : work = { claimed with
        db := ((KeyMutation.approveRequest row.requesterPrincipalId row.columnName).apply isEdgeNoise
          before.db).getD before.db } :=
      AccessState.eq_of_tables hlog hrequests (KeyDb.eq_of_tables hkeys h.roles)
    rw [hcount, ← updatedKeys_eq, hwork]
    unfold decideRequest approveRequest
    dsimp only
    rw [show claimRequest before requestId (AccessRequest.resolve .approved none call.actor now)
      = some (claimed, row) from hclaim]
  | deny reason =>
    rw [hkind] at hclaim hkeys hcount
    have hwork : work = claimed := by
      refine AccessState.eq_of_tables hlog hrequests ?_
      rw [hdbClaimed]
      exact KeyDb.eq_of_tables (hkeys.trans (List.map_id _)) h.roles
    rw [hcount, hwork]
    unfold decideRequest denyRequest
    dsimp only
    rw [if_neg (h.reason reason hkind), show claimRequest before requestId
      (AccessRequest.resolve .denied (some reason) call.actor now) = some (claimed, row) from hclaim]
    rfl

/-! ## The decision -/

/-- **What a decision leaves**: the claim's requests, and every key row as the decision has it. -/
theorem decideRequest_ok (h : decideRequest repr requestId before kind actor now = .ok (access, row, updated)) :
    ∃ claimed, claimRequest before requestId (kind.resolve actor now) = some (claimed, row) ∧
      access.requests = claimed.requests ∧ access.db.keys = before.db.keys.map (kind.onRow row) := by
  cases kind with
  | approve =>
    unfold decideRequest approveRequest at h
    dsimp only at h
    split at h
    · cases h
    · rename_i claimed row' hclaim
      cases h
      exact ⟨claimed, hclaim, rfl, rfl⟩
  | deny reason =>
    unfold decideRequest denyRequest at h
    dsimp only at h
    split at h
    · cases h
    · split at h
      · cases h
      · rename_i claimed hclaim
        cases h
        refine ⟨_, hclaim, rfl, ?_⟩
        rw [(claimRequest_frame hclaim).2]
        exact (List.map_id _).symm

theorem DecisionKind.resolve_status_ne (kind : DecisionKind) (actor now : String) (q : AccessRequest) :
    (kind.resolve actor now q).status ≠ .opened := by
  cases kind <;> exact nofun

theorem DecisionKind.resolve_requestId (kind : DecisionKind) (actor now : String) (q : AccessRequest) :
    (kind.resolve actor now q).requestId = q.requestId := by
  cases kind <;> rfl

/-- **The request is decided once**: no later claim finds it open. -/
theorem claimRequest_of_decided (h : decideRequest repr requestId before kind actor now = .ok (access, row, updated))
    (decide : AccessRequest → AccessRequest) : claimRequest access requestId decide = none := by
  obtain ⟨claimed, hclaim, hrequests, -⟩ := decideRequest_ok h
  unfold claimRequest
  rw [Option.map_eq_none_iff, List.find?_eq_none, hrequests, requests_of_claim hclaim]
  intro q hq
  obtain ⟨q₀, -, rfl⟩ := List.mem_map.mp hq
  rw [decide_eq_true_eq]
  split
  · -- the claimed row is no longer open
    exact fun hopen => kind.resolve_status_ne actor now q₀ hopen.2
  · -- the others were not open before
    rename_i hnot
    exact hnot

/-- The decided row is there, with the decision's status. -/
theorem exists_decided_row (h : decideRequest repr requestId before kind actor now = .ok (access, row, updated)) :
    row ∈ access.requests ∧ row.requestId = requestId ∧ ∃ q ∈ before.requests, q.requestId = requestId ∧
      row = kind.resolve actor now q := by
  obtain ⟨claimed, hclaim, hrequests, -⟩ := decideRequest_ok h
  obtain ⟨q, hfind, heq⟩ := Option.map_eq_some_iff.mp hclaim
  cases heq
  have hq : q.requestId = requestId ∧ q.status = .opened := by simpa using List.find?_some hfind
  have hmem := List.mem_of_find?_eq_some hfind
  refine ⟨?_, (kind.resolve_requestId actor now q).trans hq.1, q, hmem, hq.1, rfl⟩
  rw [hrequests]
  exact List.mem_map.mpr ⟨q, hmem, if_pos hq⟩

/-! ## Interleaved calls -/

/-- **What a step does**, one constructor for each enabled branch. -/
inductive DecisionMove (repr : String → String) (requestId : ℕ) (s : DecisionState) :
    DecisionStep → DecisionState → Prop
  | called (kind : DecisionKind) (actor : String) :
    DecisionMove repr requestId s (.call kind actor) { s with calls := s.calls ++ [newDecision kind actor] }
  | claimed {i : ℕ} {now : String} {call : DecisionCall} {work : AccessState} {row : AccessRequest}
      (hcall : s.calls[i]? = some call) (hphase : call.phase = .waiting)
      (hfree : ∀ c ∈ s.calls, c.phase.isWriting = false)
      (hclaim : claimRequest s.access requestId (call.kind.resolve call.actor now) = some (work, row)) :
    DecisionMove repr requestId s (.claim i now)
      (s.setPhase i call (.writing now work row (call.kind.keys work.db row) 0))
  | refused {i : ℕ} {now : String} {call : DecisionCall} (hcall : s.calls[i]? = some call)
      (hphase : call.phase = .waiting) (error : Option AccessError) :
    DecisionMove repr requestId s (.claim i now) (s.setPhase i call (.raised error))
  | visited {i : ℕ} {call : DecisionCall} {now : String} {work : AccessState} {row : AccessRequest}
      {key : KeyRow} {pending : List KeyRow} {updated : ℕ} (hcall : s.calls[i]? = some call)
      (hphase : call.phase = .writing now work row (key :: pending) updated) :
    DecisionMove repr requestId s (.writeKey i)
      (s.setPhase i call (.writing now { work with db := visitKey row.columnName work.db key } row pending
        (updated + if grantsOn row.columnName key then 1 else 0)))
  | committed {i : ℕ} {call : DecisionCall} {now : String} {work : AccessState} {row : AccessRequest}
      {updated : ℕ} (hcall : s.calls[i]? = some call) (hphase : call.phase = .writing now work row [] updated) :
    DecisionMove repr requestId s (.commit i)
      (DecisionState.setPhase { s with access := work } i call (.committed now updated))
  | readBack {i : ℕ} {call : DecisionCall} {now : String} {row : AccessRequest} {updated : ℕ}
      (hcall : s.calls[i]? = some call) (hphase : call.phase = .committed now updated)
      (hrow : (s.access.requests.find? fun q => q.requestId = requestId) = some row) :
    DecisionMove repr requestId s (.read i) (s.setPhase i call (.returned now row updated))
  | rowMissing {i : ℕ} {call : DecisionCall} {now : String} {updated : ℕ}
      (hcall : s.calls[i]? = some call) (hphase : call.phase = .committed now updated)
      (hnone : (s.access.requests.find? fun q => q.requestId = requestId) = none) :
    DecisionMove repr requestId s (.read i) (s.setPhase i call (.raisedLate now updated))
  | failed {i : ℕ} {call : DecisionCall} (hcall : s.calls[i]? = some call)
      (hundecided : call.phase.decided = false) :
    DecisionMove repr requestId s (.fail i) (s.setPhase i call (.raised none))
  | failedLate {i : ℕ} {call : DecisionCall} {now : String} {updated : ℕ}
      (hcall : s.calls[i]? = some call) (hphase : call.phase = .committed now updated) :
    DecisionMove repr requestId s (.fail i) (s.setPhase i call (.raisedLate now updated))

theorem decisionMove_of_step {l : DecisionStep} (hstep : decisionStep repr requestId s l = some s') :
    DecisionMove repr requestId s l s' := by
  cases l with
  | call kind actor =>
    cases hstep
    exact .called kind actor
  | claim i now =>
    rw [decisionStep] at hstep
    split at hstep
    · rename_i call hcall
      split at hstep
      · rename_i hphase
        split at hstep
        · -- somebody else has the write lock
          cases hstep
        · rename_i hlock
          split at hstep
          · rename_i work row hclaim
            cases hstep
            refine .claimed hcall hphase (fun c hc => Bool.eq_false_iff.mpr fun hwriting => hlock ?_) hclaim
            exact List.any_eq_true.mpr ⟨c, hc, hwriting⟩
          · cases hstep
            exact .refused hcall hphase _
      · cases hstep
    · cases hstep
  | writeKey i =>
    rw [decisionStep] at hstep
    split at hstep
    · rename_i call hcall
      split at hstep
      · rename_i hphase
        cases hstep
        exact .visited hcall hphase
      · cases hstep
    · cases hstep
  | commit i =>
    rw [decisionStep] at hstep
    split at hstep
    · rename_i call hcall
      split at hstep
      · rename_i hphase
        cases hstep
        exact .committed hcall hphase
      · cases hstep
    · cases hstep
  | read i =>
    rw [decisionStep] at hstep
    split at hstep
    · rename_i call hcall
      split at hstep
      · rename_i hphase
        split at hstep
        · rename_i row hrow
          cases hstep
          exact .readBack hcall hphase hrow
        · rename_i hnone
          cases hstep
          exact .rowMissing hcall hphase hnone
      · cases hstep
    · cases hstep
  | fail i =>
    rw [decisionStep] at hstep
    split at hstep
    · rename_i call hcall
      split at hstep
      · rename_i hphase
        cases hstep
        exact .failed hcall (by rw [hphase]; rfl)
      · rename_i hphase
        cases hstep
        exact .failed hcall (by rw [hphase]; rfl)
      · rename_i hphase
        cases hstep
        exact .failedLate hcall hphase
      · cases hstep
    · cases hstep

/-- The call has the lock, or decided. -/
def DecisionCall.active (call : DecisionCall) : Bool := call.phase.isWriting || call.phase.decided

theorem DecisionCall.active_eq {phase : DecisionPhase} (hphase : call.phase = phase) :
    call.active = (phase.isWriting || phase.decided) := by
  rw [DecisionCall.active, hphase]

/-- **What a call's phase says about the tables**: a copy is worked on from the tables as they were, and a
committed call left them as its decision does. -/
def CallOk (repr : String → String) (requestId : ℕ) (before access : AccessState) (call : DecisionCall) : Prop :=
  match call.phase with
  | .waiting => ∀ text, call.kind = .deny text → stripText text ≠ ""
  | .writing now work row pending updated =>
    access = before ∧ WorkOk requestId before call now work row pending updated
  | .committed now updated | .raisedLate now updated =>
    ∃ row, decideRequest repr requestId before call.kind call.actor now = .ok (access, row, updated)
  | .returned now row updated =>
    (access.requests.find? fun q => q.requestId = requestId) = some row ∧
      ∃ row, decideRequest repr requestId before call.kind call.actor now = .ok (access, row, updated)
  | .raised _ => True

theorem CallOk.waiting (h : CallOk repr requestId before access call) (hphase : call.phase = .waiting) :
    ∀ text, call.kind = .deny text → stripText text ≠ "" := by
  unfold CallOk at h
  rwa [hphase] at h

theorem CallOk.writing (h : CallOk repr requestId before access call)
    (hphase : call.phase = .writing now work row pending updated) :
    access = before ∧ WorkOk requestId before call now work row pending updated := by
  unfold CallOk at h
  rwa [hphase] at h

theorem CallOk.committed (h : CallOk repr requestId before access call)
    (hphase : call.phase = .committed now updated) :
    ∃ row, decideRequest repr requestId before call.kind call.actor now = .ok (access, row, updated) := by
  unfold CallOk at h
  rwa [hphase] at h

/-- A call that decided has its outcome in the tables. -/
theorem CallOk.outcome (h : CallOk repr requestId before access call) (hdecided : call.phase.decided = true) :
    ∃ now row updated,
      decideRequest repr requestId before call.kind call.actor now = .ok (access, row, updated) := by
  unfold CallOk at h
  split at h <;> rename_i hphase <;> rw [hphase] at hdecided
  · cases hdecided
  · cases hdecided
  · exact ⟨_, _, _, h.choose_spec⟩
  · exact ⟨_, _, _, h.choose_spec⟩
  · exact ⟨_, _, _, h.2.choose_spec⟩
  · cases hdecided

/-- A call that is not active has no copy and no outcome, whatever the tables are. -/
theorem CallOk.of_idle (h : CallOk repr requestId before access call) (hidle : call.active = false)
    (access' : AccessState) : CallOk repr requestId before access' call := by
  unfold CallOk at h ⊢
  split at h <;> rename_i hphase <;> rw [DecisionCall.active_eq hphase] at hidle
  · exact h
  · cases hidle
  · cases hidle
  · cases hidle
  · cases hidle
  · trivial

/-- **The calls are serial**: at most one has the lock or decided, and the tables are as they were or as that
call left them. -/
structure Serial (repr : String → String) (requestId : ℕ) (before : AccessState) (s : DecisionState) : Prop where
  /-- At most one call is active. -/
  one : s.calls.countP DecisionCall.active ≤ 1
  /-- Undecided, the tables are as they were. -/
  idle : (∀ c ∈ s.calls, c.phase.decided = false) → s.access = before
  /-- Every call's phase is right about the tables. -/
  calls : ∀ c ∈ s.calls, CallOk repr requestId before s.access c

/-- A call that goes on without committing, and without becoming active, keeps the calls serial. -/
theorem Serial.setPhase {phase : DecisionPhase} (h : Serial repr requestId before s)
    (hcall : s.calls[i]? = some call)
    (hactive : DecisionCall.active { call with phase := phase } = true → call.active = true)
    (hdecided : phase.decided = call.phase.decided)
    (hok : CallOk repr requestId before s.access { call with phase := phase }) :
    Serial repr requestId before (s.setPhase i call phase) := by
  refine ⟨?_, fun hnone => ?_, Pool.forall_mem_set h.calls hok⟩
  · have hset := Pool.countP_set (p := DecisionCall.active) (b := { call with phase := phase }) hcall
    have hone := h.one
    show (s.calls.set i { call with phase := phase }).countP DecisionCall.active ≤ 1
    by_cases hafter : DecisionCall.active { call with phase := phase } = true
    · rw [if_pos hafter, if_pos (hactive hafter)] at hset
      omega
    · rw [if_neg hafter] at hset
      omega
  · -- undecided after the step, so undecided before it
    refine h.idle fun c hc => ?_
    by_cases hsame : s.calls[i]? = some c
    · obtain rfl := Option.some_inj.mp (hcall.symm.trans hsame)
      rw [← hdecided]
      exact hnone _ (Pool.mem_set_self hcall { call with phase := phase })
    · exact hnone c (Pool.mem_set_of_ne hc hsame { call with phase := phase })

/-- A new call has the tables as it finds them. -/
theorem Serial.newCall (h : Serial repr requestId before s) (kind : DecisionKind) (actor : String) :
    Serial repr requestId before { s with calls := s.calls ++ [newDecision kind actor] } := by
  have hnew : (newDecision kind actor).active = false ∧
      CallOk repr requestId before s.access (newDecision kind actor) := by
    unfold newDecision
    cases kind with
    | approve => exact ⟨rfl, fun text htext => nomatch htext⟩
    | deny reason =>
      dsimp only
      split
      · exact ⟨rfl, trivial⟩
      · rename_i hreason
        refine ⟨rfl, fun text htext => ?_⟩
        cases htext
        exact hreason
  refine ⟨?_, fun hnone => h.idle fun c hc => hnone c (List.mem_append_left _ hc), fun c hc => ?_⟩
  · rw [List.countP_append, List.countP_singleton, hnew.1]
    exact h.one
  · obtain hmem | hmem := List.mem_append.mp hc
    · exact h.calls c hmem
    · rw [List.mem_singleton.mp hmem]
      exact hnew.2

/-- A claim that succeeds is the first one: nobody has the lock, and nobody decided. -/
theorem Serial.claimed (h : Serial repr requestId before s) (hcall : s.calls[i]? = some call)
    (hphase : call.phase = .waiting) (hfree : ∀ c ∈ s.calls, c.phase.isWriting = false)
    (hclaim : claimRequest s.access requestId (call.kind.resolve call.actor now) = some (work, row)) :
    Serial repr requestId before
      (s.setPhase i call (.writing now work row (call.kind.keys work.db row) 0)) := by
  have hundecided : ∀ c ∈ s.calls, c.phase.decided = false := by
    intro c hc
    -- a decision would have left nothing to claim
    by_contra hdecided
    rw [Bool.not_eq_false] at hdecided
    obtain ⟨_, _, _, hdecision⟩ := (h.calls c hc).outcome hdecided
    rw [claimRequest_of_decided hdecision] at hclaim
    cases hclaim
  have hbefore : s.access = before := h.idle hundecided
  have hzero : s.calls.countP DecisionCall.active = 0 := by
    refine List.countP_eq_zero.mpr fun c hc => ?_
    unfold DecisionCall.active
    rw [hfree c hc, hundecided c hc]
    exact Bool.false_ne_true
  have hreason := (h.calls call (List.mem_of_getElem? hcall)).waiting hphase
  refine ⟨?_, fun _ => hbefore, Pool.forall_mem_set h.calls ⟨hbefore, ?_⟩⟩
  · have hset := Pool.countP_set (p := DecisionCall.active)
      (b := { call with phase := .writing now work row (call.kind.keys work.db row) 0 }) hcall
    show (s.calls.set i _).countP DecisionCall.active ≤ 1
    split at hset <;> split at hset <;> omega
  · rw [hbefore] at hclaim
    refine workOk_claim ?_ hclaim
    exact hreason

/-- **The commit** publishes the copy: the other calls hold no copy and have decided nothing. -/
theorem Serial.commit (h : Serial repr requestId before s) (hcall : s.calls[i]? = some call)
    (hphase : call.phase = .writing now work row [] updated) :
    Serial repr requestId before
      (DecisionState.setPhase { s with access := work } i call (.committed now updated)) := by
  have hactive : call.active = true := DecisionCall.active_eq hphase
  have hok := (h.calls call (List.mem_of_getElem? hcall)).writing hphase
  refine ⟨?_, fun hnone => ?_, fun c hc => ?_⟩
  · have hset := Pool.countP_set (p := DecisionCall.active)
      (b := { call with phase := .committed now updated }) hcall
    have hone := h.one
    show (s.calls.set i { call with phase := .committed now updated }).countP DecisionCall.active ≤ 1
    rw [if_pos hactive] at hset
    split at hset <;> omega
  · have hdecided := hnone _ (Pool.mem_set_self hcall { call with phase := .committed now updated })
    cases hdecided
  · obtain rfl | ⟨hmem, hidle⟩ := Pool.others_of_countP_le_one h.one hcall hactive c hc
    · exact ⟨row, hok.2.commit⟩
    · exact (h.calls c hmem).of_idle hidle work

/-- A decided request has a row to read back. -/
theorem exists_find_of_decided
    (h : decideRequest repr requestId before kind actor now = .ok (access, row, updated)) :
    ∃ q, (access.requests.find? fun q => q.requestId = requestId) = some q := by
  obtain ⟨hrow, hid, -⟩ := exists_decided_row h
  refine Option.isSome_iff_exists.mp ?_
  rw [List.find?_isSome]
  exact ⟨row, hrow, decide_eq_true hid⟩

/-- **Every step keeps the calls serial.** -/
theorem Serial.step (h : Serial repr requestId before s) {l : DecisionStep}
    (hstep : decisionStep repr requestId s l = some s') : Serial repr requestId before s' := by
  cases decisionMove_of_step hstep with
  | called kind actor => exact h.newCall kind actor
  | claimed hcall hphase hfree hclaim => exact h.claimed hcall hphase hfree hclaim
  | refused hcall hphase error =>
    -- it holds no copy and has decided nothing
    exact h.setPhase hcall nofun (by rw [hphase]; rfl) trivial
  | visited hcall hphase =>
    have hok := (h.calls _ (List.mem_of_getElem? hcall)).writing hphase
    have hvisit := hok.2.visit
    refine h.setPhase hcall (fun _ => DecisionCall.active_eq hphase) (by rw [hphase]; rfl) ⟨hok.1, ?_⟩
    exact ⟨hvisit.claimed, hvisit.reason, hvisit.keys, hvisit.roles, hvisit.sublist, hvisit.count⟩
  | committed hcall hphase => exact h.commit hcall hphase
  | readBack hcall hphase hrow =>
    have hok := (h.calls _ (List.mem_of_getElem? hcall)).committed hphase
    exact h.setPhase hcall (fun _ => DecisionCall.active_eq hphase) (by rw [hphase]; rfl) ⟨hrow, hok⟩
  | rowMissing hcall hphase hnone =>
    have hok := (h.calls _ (List.mem_of_getElem? hcall)).committed hphase
    exact h.setPhase hcall (fun _ => DecisionCall.active_eq hphase) (by rw [hphase]; rfl) hok
  | failed hcall hundecided =>
    -- the copy is dropped with its transaction
    exact h.setPhase hcall nofun hundecided.symm trivial
  | failedLate hcall hphase =>
    -- the tables stay as committed
    have hok := (h.calls _ (List.mem_of_getElem? hcall)).committed hphase
    exact h.setPhase hcall (fun _ => DecisionCall.active_eq hphase) (by rw [hphase]; rfl) hok

theorem serial_start (repr : String → String) (requestId : ℕ) (before : AccessState) :
    Serial repr requestId before ⟨before, []⟩ where
  one := Nat.zero_le 1
  idle _ := rfl
  calls _ hc := absurd hc List.not_mem_nil

theorem serial_of_run {steps : List DecisionStep}
    (h : run (decisionStep repr requestId) ⟨before, []⟩ steps = some s) : Serial repr requestId before s := by
  exact (run_eq_some_iff.mp h).invariant (serial_start repr requestId before)
    fun _ _ _ hs _ hstep => hs.step hstep

/-! ## What the calls leave -/

/-- A call raised. -/
def DecisionPhase.isRaised : DecisionPhase → Bool
  | .raised _ | .raisedLate .. => true
  | _ => false

/-- **One decision, and no trace of the other calls.** -/
structure DecidedOnce (repr : String → String) (requestId : ℕ) (before : AccessState) (s : DecisionState) :
    Prop where
  /-- At most one call decides the request; a call that returned is one that did. -/
  once : s.calls.countP (fun c => c.phase.decided) ≤ 1
  /-- The tables are as they were, or as the deciding call leaves them as one transaction. -/
  outcome : (s.access = before ∧ ∀ c ∈ s.calls, c.phase.decided = false) ∨
    ∃ c ∈ s.calls, c.phase.decided = true ∧ ∃ now row updated,
      decideRequest repr requestId before c.kind c.actor now = .ok (s.access, row, updated)
  /-- The requester's keys are widened exactly when an open request ends approved. -/
  widened : (∀ q ∈ before.requests, q.requestId = requestId → q.status = .opened) →
    (∃ q ∈ s.access.requests, q.requestId = requestId ∧ q.status = .approved ∧
      s.access.db.keys = before.db.keys.map (approveOn isEdgeNoise q.requesterPrincipalId q.columnName)) ∨
    ((∀ q ∈ s.access.requests, q.requestId = requestId → q.status ≠ .approved) ∧
      s.access.db.keys = before.db.keys)
  /-- A call that raised is not the one that decided. -/
  raised : ∀ c ∈ s.calls, c.phase.isRaised = true → c.phase.decided = false

/-- A decision on an open request widens the keys exactly when it approves. -/
theorem widened_of_decideRequest
    (h : decideRequest repr requestId before kind actor now = .ok (access, row, updated))
    (hopen : ∀ q ∈ before.requests, q.requestId = requestId → q.status = .opened) :
    (∃ q ∈ access.requests, q.requestId = requestId ∧ q.status = .approved ∧
      access.db.keys = before.db.keys.map (approveOn isEdgeNoise q.requesterPrincipalId q.columnName)) ∨
    ((∀ q ∈ access.requests, q.requestId = requestId → q.status ≠ .approved) ∧
      access.db.keys = before.db.keys) := by
  obtain ⟨claimed, hclaim, hrequests, hkeys⟩ := decideRequest_ok h
  obtain ⟨hrow, hid, q, -, -, rfl⟩ := exists_decided_row h
  cases kind with
  | approve => exact .inl ⟨_, hrow, hid, rfl, hkeys⟩
  | deny reason =>
    -- every row of the id was open, so every one was denied
    refine .inr ⟨fun q' hq' hid' => ?_, hkeys.trans (List.map_id _)⟩
    rw [hrequests, requests_of_claim hclaim] at hq'
    obtain ⟨q₀, hq₀, rfl⟩ := List.mem_map.mp hq'
    split at hid' <;> rename_i hcond
    · rw [if_pos hcond]
      exact nofun
    · exact absurd ⟨hid', hopen q₀ hq₀ hid'⟩ hcond

/-- Serial calls of which none raised after its commit leave one decision and no other trace. -/
theorem Serial.decidedOnce (h : Serial repr requestId before s)
    (hraised : ∀ c ∈ s.calls, c.phase.isRaised = true → c.phase.decided = false) :
    DecidedOnce repr requestId before s := by
  have houtcome : (s.access = before ∧ ∀ c ∈ s.calls, c.phase.decided = false) ∨
      ∃ c ∈ s.calls, c.phase.decided = true ∧ ∃ now row updated,
        decideRequest repr requestId before c.kind c.actor now = .ok (s.access, row, updated) := by
    by_cases hdecided : ∃ c ∈ s.calls, c.phase.decided = true
    · obtain ⟨c, hc, hdecided⟩ := hdecided
      exact .inr ⟨c, hc, hdecided, (h.calls c hc).outcome hdecided⟩
    · have hnone : ∀ c ∈ s.calls, c.phase.decided = false :=
        fun c hc => Bool.eq_false_iff.mpr fun hd => hdecided ⟨c, hc, hd⟩
      exact .inl ⟨h.idle hnone, hnone⟩
  refine ⟨le_trans (List.countP_mono_left fun c _ hd => ?_) h.one, houtcome, fun hopen => ?_, hraised⟩
  · unfold DecisionCall.active
    rw [hd, Bool.or_true]
  · obtain ⟨hsame, -⟩ | ⟨c, -, -, now, row, updated, hdecision⟩ := houtcome
    · refine .inr ⟨fun q hq hid => ?_, by rw [hsame]⟩
      rw [hsame] at hq
      rw [hopen q hq hid]
      exact nofun
    · exact widened_of_decideRequest hdecision hopen

/-- **No failure between a call's commit and its return.** -/
def NoLateFailure (s : DecisionState) (l : DecisionStep) : Prop :=
  ∀ i call now updated, l = .fail i → s.calls[i]? = some call → call.phase ≠ .committed now updated

/-- No call has raised after its commit. -/
def NoneLate (s : DecisionState) : Prop := ∀ c ∈ s.calls, c.phase.isRaised = true → c.phase.decided = false

theorem noneLate_setPhase {phase : DecisionPhase} (h : NoneLate s)
    (hphase : phase.isRaised = true → phase.decided = false) : NoneLate (s.setPhase i call phase) :=
  Pool.forall_mem_set h hphase

theorem newDecision_noneLate (hraised : (newDecision kind actor).phase.isRaised = true) :
    (newDecision kind actor).phase.decided = false := by
  unfold newDecision at hraised ⊢
  cases kind with
  | approve => cases hraised
  | deny reason =>
    dsimp only at hraised ⊢
    split
    · rfl
    · rename_i hreason
      rw [if_neg hreason] at hraised
      cases hraised

/-- **One step** leaves no call that raised after its commit, exactly when it is no such failure. -/
theorem noneLate_step_iff (h : Serial repr requestId before s) (hlate : NoneLate s) (l : DecisionStep) :
    (∀ s', decisionStep repr requestId s l = some s' → NoneLate s') ↔ NoLateFailure s l := by
  constructor
  · rintro hkept i call now updated rfl hcall hphase
    have hstep : decisionStep repr requestId s (.fail i) = some (s.setPhase i call (.raisedLate now updated)) := by
      rw [decisionStep, hcall]
      dsimp only
      rw [hphase]
    have hraised := hkept _ hstep _ (Pool.mem_set_self hcall { call with phase := .raisedLate now updated }) rfl
    cases hraised
  · intro hfail s' hstep
    cases decisionMove_of_step hstep with
    | called kind actor =>
      intro c hc
      obtain hmem | hmem := List.mem_append.mp hc
      · exact hlate c hmem
      · rw [List.mem_singleton.mp hmem]
        exact newDecision_noneLate
    | claimed hcall hphase hfree hclaim => exact noneLate_setPhase hlate nofun
    | refused hcall hphase error => exact noneLate_setPhase hlate fun _ => rfl
    | visited hcall hphase => exact noneLate_setPhase hlate nofun
    | @committed i call now work row updated hcall hphase =>
      exact noneLate_setPhase (s := { s with access := work }) hlate nofun
    | readBack hcall hphase hrow => exact noneLate_setPhase hlate nofun
    | rowMissing hcall hphase hnone =>
      -- the decided row is there to be read
      obtain ⟨row, hdecision⟩ := (h.calls _ (List.mem_of_getElem? hcall)).committed hphase
      obtain ⟨q, hq⟩ := exists_find_of_decided hdecision
      rw [hnone] at hq
      cases hq
    | failed hcall hundecided => exact noneLate_setPhase hlate fun _ => rfl
    | failedLate hcall hphase => exact absurd hphase (hfail _ _ _ _ rfl hcall)

/-- A step leaves one decision and no trace of the other calls. -/
def LeavesDecidedOnce (repr : String → String) (requestId : ℕ) (before : AccessState) (s : DecisionState)
    (l : DecisionStep) : Prop :=
  ∀ s', decisionStep repr requestId s l = some s' → DecidedOnce repr requestId before s'

/-- **The runs in which at most one call decides the request, the keys follow its status, and a call that
raised left no trace** are those without a failure between a commit and the return. -/
theorem decidedOnce_iff (repr : String → String) (requestId : ℕ) (before : AccessState)
    (steps : List DecisionStep) (s : DecisionState) :
    RunWhere (decisionStep repr requestId) (LeavesDecidedOnce repr requestId before) ⟨before, []⟩ steps s ↔
      RunWhere (decisionStep repr requestId) NoLateFailure ⟨before, []⟩ steps s := by
  refine RunWhere.congr_of_kept (I := fun s => Serial repr requestId before s ∧ NoneLate s) ?_ ?_ ?_
  · exact ⟨serial_start repr requestId before, fun _ hc => absurd hc List.not_mem_nil⟩
  · exact fun _ _ s' hI hleaves hstep => ⟨hI.1.step hstep, (hleaves s' hstep).raised⟩
  · intro s l hI
    rw [← noneLate_step_iff hI.1 hI.2 l]
    exact forall₂_congr fun s' hstep => ⟨fun h => h.raised, fun h => (hI.1.step hstep).decidedOnce h⟩

/-! ## The read after the commit -/

/-- One open request for a column one key denies. -/
def oneRequest : AccessState where
  log := []
  requests := [⟨1, "s1", "t1", "analyst-1", "NationalID", "t0", .opened, none, none, none⟩]
  db := ⟨[⟨"h1", "analyst-1", "Analyst", ["NationalID"], none, none⟩], [], analystDb.keys_nodup⟩

/-- An approval commits, and the database is gone when it reads the row back. -/
def lostReadBack : List DecisionStep :=
  [.call .approve "admin-1", .claim 0 "t1", .writeKey 0, .commit 0, .fail 0]

/-- **A call that raised has widened the key**: its commit came before the read that failed. -/
theorem lostReadBack_widens :
    (∃ s, run (decisionStep id 1) ⟨oneRequest, []⟩ lostReadBack = some s ∧
      (∀ c ∈ s.calls, c.phase.isRaised = true) ∧
      s.access.requests.map (·.status) = [.approved] ∧
      s.access.db.keys.map (·.deniedColumns) = [[]]) ∧
    ∀ s, ¬ RunWhere (decisionStep id 1) (LeavesDecidedOnce id 1 oneRequest) ⟨oneRequest, []⟩ lostReadBack s := by
  refine ⟨⟨_, rfl, ?_, by decide, by decide⟩, ?_⟩
  · intro c hc
    rw [List.mem_singleton.mp hc]
    rfl
  · refine not_runWhere_of_run (I := NoneLate) rfl nofun ?_ ?_
    · exact fun _ _ s' _ hleaves hstep => (hleaves s' hstep).raised
    · intro hnone
      have hdecided := hnone _ (List.mem_singleton_self _) rfl
      cases hdecided

end LocalSqlAgent
