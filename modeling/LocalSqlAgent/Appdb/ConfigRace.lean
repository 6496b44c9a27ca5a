import LocalSqlAgent.Appdb.ConfigVersions
import LocalSqlAgent.Lib.Transition

/-! # Concurrent configuration calls

Any number of calls may overlap. A transaction of the SQLite database reads without a lock and holds the
write lock from its first write to its commit, so a call's reads are steps of their own and its writes one
step: `propose_or_apply` reads the active version, validates, and inserts later. `linear_iff` says which
interleavings leave a linear history. -/

namespace LocalSqlAgent

/-! ## The ledger -/

/-- A version was applied: what it is based on, and what was active until then. -/
structure Application where
  /-- The version. -/
  versionId : ℕ
  /-- Its `based_on_version`. -/
  basedOnVersion : Option ℕ
  /-- The version that was active. -/
  replaced : Option ℕ
  deriving DecidableEq, Repr

/-- The table, with every application so far as bookkeeping for the proofs. -/
structure VersionLedger where
  /-- `config_bundle_versions`. -/
  history : VersionHistory
  /-- The applications, newest first. -/
  applications : List Application

namespace VersionLedger

/-- The id of the active version. -/
def activeId (L : VersionLedger) : Option ℕ := L.history.activeRow.map VersionRow.versionId

/-- Insert a row. -/
def insert (L : VersionLedger) (new : VersionColumns) : VersionLedger where
  history := L.history.insert new
  applications := if new.status = .applied
    then ⟨L.history.nextId, new.basedOnVersion, L.activeId⟩ :: L.applications else L.applications

/-- The row of an id is there and not applied. -/
def unapplied (L : VersionLedger) (versionId : ℕ) : Option VersionRow :=
  (L.history.row? versionId).filter fun r => r.status ≠ .applied

/-- Write an approval; a row that is applied already does not become active again. -/
def approve (L : VersionLedger) (versionId : ℕ) (actor : Principal) : VersionLedger where
  history := L.history.update versionId (approved actor)
  applications := match L.unapplied versionId with
    | some r => ⟨versionId, r.basedOnVersion, L.activeId⟩ :: L.applications
    | none => L.applications

/-- Rewrite a row without applying it. -/
def update (L : VersionLedger) (versionId : ℕ) (f : VersionColumns → VersionColumns) : VersionLedger :=
  { L with history := L.history.update versionId f }

/-- **A linear history**: each version was applied over the version it is based on. -/
def Linear (L : VersionLedger) : Prop := ∀ a ∈ L.applications, a.basedOnVersion = a.replaced

end VersionLedger

/-! ## Calls -/

/-- What a transaction that begins with `_ensure_bootstrapped` is for. -/
inductive ReadGoal
  /-- `propose_or_apply`, and the stamp `restore` puts on its version. -/
  | propose (files : ConfigRequest) (basedOnVersion : ℕ) (actor : Principal) (stamp : Option (ℕ × Option String))
  /-- `restore`, before it proposes. -/
  | restore (fromVersionId : ℕ) (filename : Option String) (actor : Principal)
  /-- `import_bundle_from_directory`, before it proposes. -/
  | importBundle (files : Bundle) (actor : Principal)
  /-- `get_active_version`. -/
  | read

/-- The next database statement of a call, with what it has read. -/
inductive ConfigPhase
  /-- Count the rows, and read the active one if there are any. -/
  | reading (goal : ReadGoal)
  /-- No rows were counted: insert the bootstrap row. -/
  | bootstrapping (goal : ReadGoal)
  /-- `restore` read the active version: read the source. -/
  | sourcing (active fromVersionId : ℕ) (filename : Option String) (actor : Principal)
  /-- A proposal passed its checks against the active version: insert it. -/
  | inserting (active : ℕ) (new : VersionColumns) (stamp : Option (ℕ × Option String))
  /-- `_stamp_restore_provenance`. -/
  | stamping (versionId fromVersionId : ℕ) (filename : Option String)
  /-- `approve_draft`: read the draft. -/
  | reviewing (versionId : ℕ) (actor : Principal)
  /-- Read the active version. -/
  | comparing (draft : VersionRow) (actor : Principal)
  /-- The draft is based on the active version: write the approval. -/
  | approving (versionId active : ℕ) (actor : Principal)
  /-- `reject_draft`: read the draft. -/
  | dismissing (versionId : ℕ) (reason : String) (actor : Principal)
  /-- Write the rejection. -/
  | rejecting (versionId : ℕ) (reason : String) (actor : Principal)

/-- The database, and the calls in flight. -/
structure RaceState where
  /-- The table. -/
  ledger : VersionLedger
  /-- The calls. -/
  pending : List ConfigPhase

/-- A step: a call comes in, or a call in flight makes its next statement. -/
inductive RaceStep
  /-- A call that the routes let through. -/
  | start (actor : Principal) (call : ConfigCall)
  /-- The next statement of the call at an index, with the files on disk then. -/
  | advance (i : ℕ) (disk : Bundle)

/-- How a call begins; unknown file names are refused. -/
def ConfigCall.begin (actor : Principal) : ConfigCall → Option ConfigPhase
  | propose files basedOnVersion =>
    if hasUnknownFile files then none else some (.reading (.propose files basedOnVersion actor none))
  | approve versionId => some (.reviewing versionId actor)
  | reject versionId reason => some (.dismissing versionId reason actor)
  | restore fromVersionId filename =>
    if filename.any fun name => (ConfigFile.ofFilename name).isNone then none
    else some (.reading (.restore fromVersionId filename actor))
  | importBundle files => some (.reading (.importBundle files actor))
  | read => some (.reading .read)

/-- The proposal of an import. -/
def importing (files : Bundle) (active : ℕ) (actor : Principal) : ConfigPhase :=
  .reading (.propose (importedFiles files) active actor none)

/-- The proposal of a restore. -/
def restoring (source : VersionRow) (active : ℕ) (filename : Option String) (actor : Principal) : ConfigPhase :=
  .reading (.propose (restoredFiles source filename) active actor (some (source.versionId, filename)))

section Step

variable (checks : ConfigChecks)

/-- What a call does with the active row it read. -/
def ReadGoal.next (active : VersionRow) : ReadGoal → Option ConfigPhase
  | propose files basedOnVersion actor stamp =>
    match proposal checks active files basedOnVersion actor with
    | .error _ => none
    | .ok new => some (.inserting active.versionId new stamp)
  | restore fromVersionId filename actor => some (.sourcing active.versionId fromVersionId filename actor)
  | importBundle files actor => some (importing files active.versionId actor)
  | read => none

/-- The stamp that is due after an insert. -/
def stampPhase (versionId : ℕ) (stamp : Option (ℕ × Option String)) : Option ConfigPhase :=
  stamp.map fun p => .stamping versionId p.1 p.2

/-- The rest of a transaction that has inserted the bootstrap row, under the write lock: the rows it adds
and how the call goes on, or `none` when it is rolled back. -/
def ReadGoal.bootstrapped (h : VersionHistory) (bootstrap : VersionRow) :
    ReadGoal → Option (Option VersionColumns × Option ConfigPhase)
  | propose files basedOnVersion actor stamp =>
    match proposal checks bootstrap files basedOnVersion actor with
    | .error _ => none
    | .ok new => some (some new, stampPhase (bootstrap.versionId + 1) stamp)
  | restore fromVersionId filename actor =>
    match (h.insert bootstrap.toVersionColumns).row? fromVersionId with
    | none => none
    | some source => some (none, some (restoring source bootstrap.versionId filename actor))
  | importBundle files actor => some (none, some (importing files bootstrap.versionId actor))
  | read => some (none, none)

/-- The bootstrap row a table would get. -/
def bootstrapRow (disk : Bundle) (h : VersionHistory) : VersionRow := ⟨bootstrapColumns disk, h.nextId⟩

/-- A statement of a call: the table, and how the call goes on. -/
def ConfigPhase.advance (disk : Bundle) (L : VersionLedger) : ConfigPhase → VersionLedger × Option ConfigPhase
  | reading goal =>
    if L.history.rows.isEmpty then (L, some (.bootstrapping goal))
    else (L, L.history.activeRow.bind fun active => goal.next checks active)
  | bootstrapping goal =>
    match goal.bootstrapped checks L.history (bootstrapRow disk L.history) with
    | none => (L, none)
    | some (none, next) => (L.insert (bootstrapColumns disk), next)
    | some (some new, next) => ((L.insert (bootstrapColumns disk)).insert new, next)
  | sourcing active fromVersionId filename actor =>
    (L, (L.history.row? fromVersionId).map fun source => restoring source active filename actor)
  | inserting _ new stamp => (L.insert new, stampPhase L.history.nextId stamp)
  | stamping versionId fromVersionId filename => (L.update versionId (stamped fromVersionId filename), none)
  | reviewing versionId actor =>
    match draftToReview versionId L.history with
    | .error _ => (L, none)
    | .ok draft => (L, some (.comparing draft actor))
  | comparing draft actor =>
    match activeBase draft L.history with
    | .error _ => (L, none)
    | .ok active => (L, some (.approving draft.versionId active.versionId actor))
  | approving versionId _ actor => (L.approve versionId actor, none)
  | dismissing versionId reason actor =>
    match draftToReview versionId L.history with
    | .error _ => (L, none)
    | .ok _ => (L, some (.rejecting versionId reason actor))
  | rejecting versionId reason actor => (L.update versionId (rejected actor reason), none)

/-- One step. -/
def raceStep (s : RaceState) : RaceStep → Option RaceState
  | .start actor call => some { s with pending := s.pending ++ (call.begin actor).toList }
  | .advance i disk =>
    s.pending[i]?.map fun p =>
      let next := p.advance checks disk s.ledger
      ⟨next.1, s.pending.eraseIdx i ++ next.2.toList⟩

/-- **A statement is not overtaken**: a version is applied while the version the call read as active still
is, and a table is bootstrapped while it has no active version. -/
def ConfigPhase.Timely (disk : Bundle) (L : VersionLedger) : ConfigPhase → Prop
  | inserting active new _ => new.status = .applied → L.activeId = some active
  | approving versionId active _ => (L.unapplied versionId).isSome → L.activeId = some active
  | bootstrapping goal =>
    (goal.bootstrapped checks L.history (bootstrapRow disk L.history)).isSome → L.activeId = none
  | _ => True

/-- No step is overtaken. -/
def AllTimely (s : RaceState) (l : RaceStep) : Prop :=
  ∀ i disk p, l = .advance i disk → s.pending[i]? = some p → p.Timely checks disk s.ledger

end Step

variable {checks : ConfigChecks} {L : VersionLedger} {h h' : VersionHistory} {disk : Bundle} {s s' : RaceState}
  {actor : Principal} {versionId : ℕ}

/-! ## What is written -/

theorem VersionLedger.linear_cons_iff {a : Application} {history : VersionHistory} {applications : List Application} :
    VersionLedger.Linear ⟨history, a :: applications⟩ ↔
      (∀ b ∈ applications, b.basedOnVersion = b.replaced) ∧ a.basedOnVersion = a.replaced := by
  unfold VersionLedger.Linear
  rw [List.forall_mem_cons]
  exact and_comm

/-- An insert keeps the history linear when its row, if applied, is based on the active version. -/
theorem VersionLedger.linear_insert_iff {new : VersionColumns} :
    (L.insert new).Linear ↔ L.Linear ∧ (new.status = .applied → new.basedOnVersion = L.activeId) := by
  unfold VersionLedger.insert
  by_cases happlied : new.status = .applied
  · rw [if_pos happlied, VersionLedger.linear_cons_iff]
    exact and_congr_right fun _ => ⟨fun hbase _ => hbase, fun hbase => hbase happlied⟩
  · rw [if_neg happlied]
    exact (and_iff_left fun h => absurd h happlied).symm

/-- An approval keeps the history linear when its row, if not applied yet, is based on the active version. -/
theorem VersionLedger.linear_approve_iff :
    (L.approve versionId actor).Linear ↔
      L.Linear ∧ ∀ r, L.unapplied versionId = some r → r.basedOnVersion = L.activeId := by
  unfold VersionLedger.approve
  cases L.unapplied versionId with
  | none => exact (and_iff_left nofun).symm
  | some r =>
    rw [VersionLedger.linear_cons_iff]
    refine and_congr_right fun _ => ⟨fun hr r' heq => ?_, fun hall => hall r rfl⟩
    exact Option.some_inj.mp heq ▸ hr

theorem VersionLedger.activeId_insert_applied {new : VersionColumns} (hnew : new.status = .applied) :
    (L.insert new).activeId = some L.history.nextId :=
  congrArg (Option.map VersionRow.versionId) (VersionHistory.activeRow_insert_applied hnew)

/-! ## What a call in flight knows -/

/-- A row with this id and base. -/
def HasBase (h : VersionHistory) (versionId : ℕ) (basedOnVersion : Option ℕ) : Prop :=
  ∃ r ∈ h.rows, r.versionId = versionId ∧ r.basedOnVersion = basedOnVersion

/-- **What a call knows**: the version it read as active is the base of what it is about to apply. -/
def ConfigPhase.Informed (h : VersionHistory) : ConfigPhase → Prop
  | inserting active new _ => new.basedOnVersion = some active
  | comparing draft _ => HasBase h draft.versionId draft.basedOnVersion
  | approving versionId active _ => HasBase h versionId (some active)
  | _ => True

/-- Rows keep their id and base. -/
def KeepsBases (h h' : VersionHistory) : Prop := ∀ versionId base, HasBase h versionId base → HasBase h' versionId base

theorem KeepsBases.refl (h : VersionHistory) : KeepsBases h h := fun _ _ hbase => hbase

theorem KeepsBases.insert (new : VersionColumns) : KeepsBases h (h.insert new) :=
  fun _ _ ⟨r, hr, hrow⟩ => ⟨r, List.mem_cons_of_mem _ hr, hrow⟩

theorem KeepsBases.update {f : VersionColumns → VersionColumns}
    (hf : ∀ c, (f c).basedOnVersion = c.basedOnVersion) : KeepsBases h (h.update versionId f) := by
  rintro id base ⟨r, hr, hid, hbase⟩
  refine ⟨_, VersionHistory.mem_update hr, ?_⟩
  split
  · exact ⟨hid, (hf _).trans hbase⟩
  · exact ⟨hid, hbase⟩

theorem ConfigPhase.Informed.mono {p : ConfigPhase} (hp : p.Informed h) (hkeeps : KeepsBases h h') :
    p.Informed h' := by
  cases p with
  | comparing draft actor => exact hkeeps _ _ hp
  | approving versionId active actor => exact hkeeps _ _ hp
  | _ => exact hp

/-- A statement keeps every base. -/
theorem advance_keepsBases (checks : ConfigChecks) (disk : Bundle) (L : VersionLedger) (p : ConfigPhase) :
    KeepsBases L.history (p.advance checks disk L).1.history := by
  have hrefl := KeepsBases.refl L.history
  cases p with
  | reading goal =>
    unfold ConfigPhase.advance
    dsimp only
    split <;> exact hrefl
  | bootstrapping goal =>
    unfold ConfigPhase.advance
    dsimp only
    split
    · exact hrefl
    · exact KeepsBases.insert _
    · -- the bootstrap row, and the call's own row behind it
      exact fun id base hbase => KeepsBases.insert _ id base (KeepsBases.insert _ id base hbase)
  | sourcing => exact hrefl
  | inserting active new stamp => exact KeepsBases.insert new
  | stamping => exact KeepsBases.update fun _ => rfl
  | reviewing =>
    unfold ConfigPhase.advance
    dsimp only
    split <;> exact hrefl
  | comparing =>
    unfold ConfigPhase.advance
    dsimp only
    split <;> exact hrefl
  | approving => exact KeepsBases.update fun _ => rfl
  | dismissing =>
    unfold ConfigPhase.advance
    dsimp only
    split <;> exact hrefl
  | rejecting => exact KeepsBases.update fun _ => rfl

theorem stampPhase_informed {stamp : Option (ℕ × Option String)} {q : ConfigPhase}
    (hq : stampPhase versionId stamp = some q) : q.Informed h := by
  obtain ⟨_, -, rfl⟩ := Option.map_eq_some_iff.mp hq
  trivial

theorem next_informed {goal : ReadGoal} {active : VersionRow} {q : ConfigPhase}
    (hq : goal.next checks active = some q) : q.Informed h := by
  cases goal with
  | propose files basedOnVersion actor stamp =>
    unfold ReadGoal.next at hq
    dsimp only at hq
    split at hq
    · cases hq
    · rename_i new hnew
      cases hq
      exact basedOnVersion_of_proposal hnew
  | restore =>
    cases hq
    trivial
  | importBundle =>
    cases hq
    trivial
  | read => cases hq

theorem bootstrapped_informed {goal : ReadGoal} {boot : VersionRow} {new : Option VersionColumns}
    {next : Option ConfigPhase} {q : ConfigPhase} (hboot : goal.bootstrapped checks h boot = some (new, next))
    (hq : next = some q) : q.Informed h' := by
  subst hq
  cases goal with
  | propose files basedOnVersion actor stamp =>
    unfold ReadGoal.bootstrapped at hboot
    dsimp only at hboot
    split at hboot
    · cases hboot
    · exact stampPhase_informed (Prod.mk.inj (Option.some_inj.mp hboot)).2
  | restore =>
    unfold ReadGoal.bootstrapped at hboot
    dsimp only at hboot
    split at hboot
    · cases hboot
    · cases hboot
      trivial
  | importBundle =>
    cases hboot
    trivial
  | read => cases hboot

/-- A statement leaves its call informed. -/
theorem advance_informed {p q : ConfigPhase} (hp : p.Informed L.history)
    (hq : (p.advance checks disk L).2 = some q) : q.Informed (p.advance checks disk L).1.history := by
  cases p with
  | reading goal =>
    unfold ConfigPhase.advance at hq ⊢
    dsimp only at hq ⊢
    split at hq
    · cases hq
      trivial
    · obtain ⟨active, -, hnext⟩ := Option.bind_eq_some_iff.mp hq
      exact next_informed hnext
  | bootstrapping goal =>
    unfold ConfigPhase.advance at hq ⊢
    dsimp only at hq ⊢
    split at hq
    · cases hq
    · exact bootstrapped_informed ‹_› hq
    · exact bootstrapped_informed ‹_› hq
  | sourcing active fromVersionId filename actor =>
    obtain ⟨source, -, rfl⟩ := Option.map_eq_some_iff.mp hq
    trivial
  | inserting active new stamp => exact stampPhase_informed hq
  | reviewing versionId actor =>
    unfold ConfigPhase.advance at hq ⊢
    dsimp only at hq ⊢
    split at hq
    · cases hq
    · rename_i draft hdraft
      cases hq
      exact ⟨draft, (draftToReview_ok hdraft).1, rfl, rfl⟩
  | comparing draft actor =>
    unfold ConfigPhase.advance at hq ⊢
    dsimp only at hq ⊢
    split at hq
    · cases hq
    · rename_i active hactive
      cases hq
      have hbase : HasBase L.history draft.versionId draft.basedOnVersion := hp
      rw [(activeBase_ok hactive).2] at hbase
      exact hbase
  | dismissing versionId reason actor =>
    unfold ConfigPhase.advance at hq ⊢
    dsimp only at hq ⊢
    split at hq
    · cases hq
    · cases hq
      trivial
  | _ => cases hq

/-! ## Which interleavings are linear -/

/-- Writing the bootstrap row and what follows it keeps the history linear when nothing was active: what
follows is based on the bootstrap row. -/
theorem linear_bootstrapped_iff {goal : ReadGoal} {new : VersionColumns} {next : Option ConfigPhase}
    (hboot : goal.bootstrapped checks L.history (bootstrapRow disk L.history) = some (some new, next)) :
    ((L.insert (bootstrapColumns disk)).insert new).Linear ↔ (L.insert (bootstrapColumns disk)).Linear := by
  rw [VersionLedger.linear_insert_iff]
  refine and_iff_left fun _ => ?_
  rw [VersionLedger.activeId_insert_applied rfl]
  cases goal with
  | propose files basedOnVersion actor stamp =>
    unfold ReadGoal.bootstrapped at hboot
    dsimp only at hboot
    split at hboot
    · cases hboot
    · rename_i new' hnew
      cases hboot
      exact basedOnVersion_of_proposal hnew
  | restore =>
    unfold ReadGoal.bootstrapped at hboot
    dsimp only at hboot
    split at hboot <;> cases hboot
  | importBundle => cases hboot
  | read => cases hboot

theorem linear_bootstrap_iff : (L.insert (bootstrapColumns disk)).Linear ↔ L.Linear ∧ L.activeId = none := by
  rw [VersionLedger.linear_insert_iff]
  exact and_congr_right fun _ => ⟨fun hbase => (hbase rfl).symm, fun hnone _ => hnone.symm⟩

/-- The one row of an id has the base a call knows of. -/
theorem base_of_unapplied {r : VersionRow} {active : ℕ} (hbase : HasBase L.history versionId (some active))
    (hr : L.unapplied versionId = some r) : r.basedOnVersion = some active := by
  obtain ⟨r', hr', hid, hbase⟩ := hbase
  unfold VersionLedger.unapplied at hr
  obtain ⟨hrow, -⟩ := Option.filter_eq_some_iff.mp hr
  obtain ⟨hmem, hid'⟩ := VersionHistory.row?_eq_some hrow
  rw [L.history.eq_of_versionId hmem hr' (hid'.trans hid.symm)]
  exact hbase

/-- **A statement keeps the history linear exactly when it is not overtaken.** -/
theorem linear_advance_iff {p : ConfigPhase} (hp : p.Informed L.history) :
    (p.advance checks disk L).1.Linear ↔ L.Linear ∧ p.Timely checks disk L := by
  have htrivial : L.Linear ↔ L.Linear ∧ True := (and_iff_left trivial).symm
  cases p with
  | reading goal =>
    unfold ConfigPhase.advance
    dsimp only
    split <;> exact htrivial
  | bootstrapping goal =>
    unfold ConfigPhase.advance ConfigPhase.Timely
    dsimp only
    split
    · rename_i hboot
      rw [hboot]
      exact (and_iff_left nofun).symm
    · rename_i next hboot
      rw [hboot, linear_bootstrap_iff]
      exact and_congr_right fun _ => ⟨fun hnone _ => hnone, fun h => h rfl⟩
    · -- only the bootstrap row can be overtaken: the next row is based on it
      rename_i new next hboot
      rw [linear_bootstrapped_iff hboot, hboot, linear_bootstrap_iff]
      exact and_congr_right fun _ => ⟨fun hnone _ => hnone, fun h => h rfl⟩
  | inserting active new stamp =>
    have hbase : new.basedOnVersion = some active := hp
    show (L.insert new).Linear ↔ L.Linear ∧ (new.status = .applied → L.activeId = some active)
    rw [VersionLedger.linear_insert_iff, hbase]
    exact and_congr_right fun _ => forall_congr' fun _ => eq_comm
  | approving versionId active actor =>
    have hbase : HasBase L.history versionId (some active) := hp
    show (L.approve versionId actor).Linear ↔ L.Linear ∧ ((L.unapplied versionId).isSome → L.activeId = some active)
    rw [VersionLedger.linear_approve_iff]
    -- the draft has the base the call compared with the active version
    refine and_congr_right fun _ => ⟨fun hall hsome => ?_, fun hactive r hr => ?_⟩
    · obtain ⟨r, hr⟩ := Option.isSome_iff_exists.mp hsome
      exact (hall r hr).symm.trans (base_of_unapplied hbase hr)
    · rw [base_of_unapplied hbase hr, hactive (hr ▸ rfl)]
  | reviewing =>
    unfold ConfigPhase.advance
    dsimp only
    split <;> exact htrivial
  | comparing =>
    unfold ConfigPhase.advance
    dsimp only
    split <;> exact htrivial
  | dismissing =>
    unfold ConfigPhase.advance
    dsimp only
    split <;> exact htrivial
  | _ => exact htrivial

/-- Every call in flight is informed. -/
def AllInformed (s : RaceState) : Prop := ∀ p ∈ s.pending, p.Informed s.ledger.history

theorem begin_informed {call : ConfigCall} {p : ConfigPhase} (hp : call.begin actor = some p) : p.Informed h := by
  cases call with
  | propose files basedOnVersion =>
    unfold ConfigCall.begin at hp
    dsimp only at hp
    split at hp
    · cases hp
    · cases hp
      trivial
  | restore fromVersionId filename =>
    unfold ConfigCall.begin at hp
    dsimp only at hp
    split at hp
    · cases hp
    · cases hp
      trivial
  | _ =>
    cases hp
    trivial

theorem AllInformed.step (hs : AllInformed s) {l : RaceStep} (hstep : raceStep checks s l = some s') :
    AllInformed s' := by
  cases l with
  | start actor call =>
    cases hstep
    intro p hp
    obtain hp | hp := List.mem_append.mp hp
    · exact hs p hp
    · exact begin_informed (Option.mem_toList.mp hp)
  | advance i disk =>
    obtain ⟨p, hp, rfl⟩ := Option.map_eq_some_iff.mp hstep
    have hinformed := hs p (List.mem_of_getElem? hp)
    intro q hq
    obtain hq | hq := List.mem_append.mp hq
    · exact (hs q (List.mem_of_mem_eraseIdx hq)).mono (advance_keepsBases checks disk s.ledger p)
    · exact advance_informed hinformed (Option.mem_toList.mp hq)

theorem linear_step_iff (hs : AllInformed s) {l : RaceStep} (hstep : raceStep checks s l = some s') :
    s'.ledger.Linear ↔ s.ledger.Linear ∧ AllTimely checks s l := by
  cases l with
  | start actor call =>
    cases hstep
    exact (and_iff_left fun i disk p heq => nomatch heq).symm
  | advance i disk =>
    obtain ⟨p, hp, rfl⟩ := Option.map_eq_some_iff.mp hstep
    refine (linear_advance_iff (hs p (List.mem_of_getElem? hp))).trans (and_congr_right fun _ => ?_)
    constructor
    · intro htimely j disk' q heq hq
      cases heq
      rw [hp] at hq
      cases hq
      exact htimely
    · exact fun hall => hall i disk p rfl hp

/-- No version yet, and no call. -/
def RaceState.start : RaceState := ⟨⟨⟨[], VersionHistory.sorted_nil⟩, []⟩, []⟩

/-- **The interleavings that leave a linear history** are those in which no call is overtaken between the
read of the active version and the write that applies its own. -/
theorem linear_iff (checks : ConfigChecks) (steps : List RaceStep) (s : RaceState) :
    RunWhere (raceStep checks) (AllTimely checks) .start steps s ↔
      run (raceStep checks) .start steps = some s ∧ s.ledger.Linear := by
  have hinformed : AllInformed .start := fun p hp => nomatch hp
  have hlinear : RaceState.start.ledger.Linear := fun a ha => nomatch ha
  refine RunWhere.iff_run_and (I := AllInformed) (J := fun s => s.ledger.Linear) hinformed hlinear ?_ ?_
  · exact fun _ _ _ hs hstep => hs.step hstep
  · exact fun _ _ _ hs hstep => linear_step_iff hs hstep

/-- Two administrators save a change to different files over version 1, and both read the active version
before either inserts. -/
def overlappingSaves : List RaceStep :=
  let disk : Bundle := fun _ => ""
  let admin : Principal := ⟨"admin", "admin", [], {"operations"}⟩
  [.start admin .read, .advance 0 disk, .advance 0 disk,
    .start admin (.propose [("aliases.yaml", "a")] 1), .start admin (.propose [("metrics.yaml", "m")] 1),
    .advance 0 disk, .advance 0 disk, .advance 0 disk, .advance 0 disk]

/-- **A lost save**: version 3 is based on version 1 and was applied over version 2, whose aliases it does
not have. -/
theorem overlappingSaves_not_linear :
    ((run (raceStep fun _ _ => none) .start overlappingSaves).map fun s => s.ledger.applications)
      = some [⟨3, some 1, some 2⟩, ⟨2, some 1, some 1⟩, ⟨1, none, none⟩] ∧
    ∀ s, run (raceStep fun _ _ => none) .start overlappingSaves = some s → ¬ s.ledger.Linear := by
  have hend : ((run (raceStep fun _ _ => none) .start overlappingSaves).map fun s => s.ledger.applications)
      = some [⟨3, some 1, some 2⟩, ⟨2, some 1, some 1⟩, ⟨1, none, none⟩] := by decide
  refine ⟨hend, fun s hrun hlinear => ?_⟩
  rw [hrun] at hend
  have happlications : s.ledger.applications = _ := Option.some_inj.mp hend
  have hlast := hlinear ⟨3, some 1, some 2⟩ (by rw [happlications]; decide)
  exact absurd hlast (by decide)

end LocalSqlAgent
