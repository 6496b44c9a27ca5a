import LocalSqlAgent.Appdb.KeyStore

/-! # Versioned configuration

`appdb.config_versions`: the nine `project_config` files as one bundle, every save a row with a full
snapshot, the active version the newest applied row. `schema.yaml` is the guard's allowlist: a change to
it by an administrator without the security capability is kept as a draft until one who has it approves.

The calls are taken one at a time here; `commit` is the route with its capability check, to the end of
its transaction, and `Committed` the ways it ends. Who may change `schema.yaml` is in `ConfigSafety`, what
an apply writes to disk in `ConfigApply`, calls that overlap in `ConfigRace`. -/

namespace LocalSqlAgent

/-! ## Bundles and versions -/

/-- The files of `CONFIG_FILENAMES`. -/
inductive ConfigFile
  | aliases
  | businessRules
  | entities
  | examples
  | metrics
  | retrievalHints
  | sessionPolicy
  | memoryPolicy
  | schema
  deriving DecidableEq, Repr

namespace ConfigFile

/-- The file's name. -/
def filename : ConfigFile → String
  | aliases => "aliases.yaml"
  | businessRules => "business_rules.yaml"
  | entities => "entities.yaml"
  | examples => "examples.yaml"
  | metrics => "metrics.yaml"
  | retrievalHints => "retrieval_hints.yaml"
  | sessionPolicy => "session_policy.yaml"
  | memoryPolicy => "memory_policy.yaml"
  | schema => "schema.yaml"

/-- `CONFIG_FILENAMES`, in order. -/
def all : List ConfigFile :=
  [aliases, businessRules, entities, examples, metrics, retrievalHints, sessionPolicy, memoryPolicy, schema]

theorem mem_all (f : ConfigFile) : f ∈ all := by
  cases f <;> decide

/-- `CONFIG_FILENAMES` sorted by name. -/
def byName : List ConfigFile :=
  [aliases, businessRules, entities, examples, memoryPolicy, metrics, retrievalHints, schema, sessionPolicy]

theorem mem_byName (f : ConfigFile) : f ∈ byName := by
  cases f <;> decide

/-- The file of a name. -/
def ofFilename (name : String) : Option ConfigFile := all.find? fun f => f.filename = name

end ConfigFile

/-- The text of every file. -/
abbrev Bundle := ConfigFile → String

/-- `status`. -/
inductive VersionStatus
  | draft
  | applied
  | rejected
  deriving DecidableEq, Repr

/-- The columns of a row of `config_bundle_versions`, its id aside; dates, hash and dry run left out. -/
structure VersionColumns where
  /-- `status`. -/
  status : VersionStatus
  /-- `content_json`. -/
  content : Bundle
  /-- `based_on_version`. -/
  basedOnVersion : Option ℕ
  /-- `restored_from_version`. -/
  restoredFromVersion : Option ℕ
  /-- `restored_file`. -/
  restoredFile : Option String
  /-- `created_by`. -/
  createdBy : String
  /-- `created_by_capability`. -/
  createdByCapability : String
  /-- `reviewed_by`. -/
  reviewedBy : Option String
  /-- `review_note`. -/
  reviewNote : Option String
  /-- `files_changed` of `diff_json`. -/
  filesChanged : Option (List ConfigFile)

/-- A row of `config_bundle_versions`. -/
structure VersionRow extends VersionColumns where
  /-- `version_id`. -/
  versionId : ℕ

/-- **The table**, newest row first: ids grow with every insert. -/
structure VersionHistory where
  /-- The rows. -/
  rows : List VersionRow
  /-- The id is the primary key, newer rows have larger ids. -/
  sorted : rows.Pairwise fun r r' => r'.versionId < r.versionId

/-- `SECURITY_CAPABILITY`. -/
def securityCapability : String := "security"

/-- `OPERATIONS_CAPABILITY`. -/
def operationsCapability : String := "operations"

namespace VersionHistory

theorem sorted_nil : ([] : List VersionRow).Pairwise fun r r' => r'.versionId < r.versionId := .nil

/-- The id the next row gets. -/
def nextId (h : VersionHistory) : ℕ := (h.rows.head?.map VersionRow.versionId).getD 0 + 1

theorem lt_nextId (h : VersionHistory) : ∀ r ∈ h.rows, r.versionId < h.nextId := by
  obtain ⟨rows, hsorted⟩ := h
  intro r hr
  cases rows with
  | nil => cases hr
  | cons first rest =>
    show r.versionId < first.versionId + 1
    obtain rfl | hr := List.mem_cons.mp hr
    · omega
    · have := (List.pairwise_cons.mp hsorted).1 r hr
      omega

/-- Insert a row. -/
def insert (h : VersionHistory) (new : VersionColumns) : VersionHistory where
  rows := ⟨new, h.nextId⟩ :: h.rows
  sorted := List.pairwise_cons.mpr ⟨h.lt_nextId, h.sorted⟩

/-- Rewrite the columns of one row. -/
def update (h : VersionHistory) (versionId : ℕ) (f : VersionColumns → VersionColumns) : VersionHistory where
  rows := h.rows.map fun r => if r.versionId = versionId then { r with toVersionColumns := f r.toVersionColumns } else r
  sorted := by
    rw [List.pairwise_map]
    refine h.sorted.imp fun {r r'} hlt => ?_
    split <;> split <;> exact hlt

/-- `_active_version_row`: the newest applied row. -/
def activeRow (h : VersionHistory) : Option VersionRow := h.rows.find? fun r => r.status = .applied

/-- `_version_row`. -/
def row? (h : VersionHistory) (versionId : ℕ) : Option VersionRow := h.rows.find? fun r => r.versionId = versionId

theorem mem_of_activeRow {h : VersionHistory} {a : VersionRow} (ha : h.activeRow = some a) : a ∈ h.rows :=
  List.mem_of_find?_eq_some ha

theorem applied_of_activeRow {h : VersionHistory} {a : VersionRow} (ha : h.activeRow = some a) :
    a.status = .applied := by
  have hfound := List.find?_some ha
  exact of_decide_eq_true hfound

theorem isSome_activeRow {h : VersionHistory} : h.activeRow.isSome ↔ ∃ r ∈ h.rows, r.status = .applied := by
  unfold activeRow
  rw [List.find?_isSome]
  simp only [decide_eq_true_eq]

theorem row?_eq_some {h : VersionHistory} {versionId : ℕ} {r : VersionRow} (hr : h.row? versionId = some r) :
    r ∈ h.rows ∧ r.versionId = versionId := by
  have hfound := List.find?_some hr
  exact ⟨List.mem_of_find?_eq_some hr, of_decide_eq_true hfound⟩

/-- Two rows of one id are one row. -/
theorem eq_of_versionId (h : VersionHistory) {r r' : VersionRow} (hr : r ∈ h.rows) (hr' : r' ∈ h.rows)
    (hid : r.versionId = r'.versionId) : r = r' := by
  have hnodup : (h.rows.map VersionRow.versionId).Nodup := by
    rw [List.Nodup, List.pairwise_map]
    exact h.sorted.imp fun hlt => (Nat.ne_of_lt hlt).symm
  exact List.inj_on_of_nodup_map hnodup hr hr' hid

/-- The active version is the newest applied one. -/
theorem activeRow_eq_some {h : VersionHistory} {a : VersionRow} :
    h.activeRow = some a ↔
      a ∈ h.rows ∧ a.status = .applied ∧ ∀ r ∈ h.rows, r.status = .applied → r.versionId ≤ a.versionId := by
  have newest : ∀ b, h.activeRow = some b → ∀ r ∈ h.rows, r.status = .applied → r.versionId ≤ b.versionId := by
    intro b hb r hr happlied
    obtain ⟨-, before, after, hrows, hbefore⟩ := List.find?_eq_some_iff_append.mp hb
    have hsorted := h.sorted
    rw [hrows] at hr hsorted
    obtain hr | hr := List.mem_append.mp hr
    · -- rows before the one found are not applied
      have := hbefore r hr
      rw [happlied] at this
      cases this
    · obtain rfl | hr := List.mem_cons.mp hr
      · exact le_rfl
      · exact Nat.le_of_lt ((List.pairwise_cons.mp (List.pairwise_append.mp hsorted).2.1).1 r hr)
  constructor
  · exact fun ha => ⟨mem_of_activeRow ha, applied_of_activeRow ha, newest a ha⟩
  · rintro ⟨hmem, happlied, hnewest⟩
    obtain ⟨b, hb⟩ := Option.isSome_iff_exists.mp (isSome_activeRow.mpr ⟨a, hmem, happlied⟩)
    have hle := newest b hb a hmem happlied
    have hge := hnewest b (mem_of_activeRow hb) (applied_of_activeRow hb)
    rw [hb, h.eq_of_versionId (mem_of_activeRow hb) hmem (Nat.le_antisymm hge hle)]

theorem activeRow_insert_applied {h : VersionHistory} {new : VersionColumns} (hnew : new.status = .applied) :
    (h.insert new).activeRow = some ⟨new, h.nextId⟩ := by
  unfold activeRow insert
  rw [List.find?_cons_of_pos]
  exact decide_eq_true hnew

theorem activeRow_insert_of_ne {h : VersionHistory} {new : VersionColumns} (hnew : new.status ≠ .applied) :
    (h.insert new).activeRow = h.activeRow := by
  unfold activeRow insert
  rw [List.find?_cons_of_neg]
  simpa using hnew

/-- An update keeps every row, under its id. -/
theorem mem_update {h : VersionHistory} {versionId : ℕ} {f : VersionColumns → VersionColumns} {r : VersionRow}
    (hr : r ∈ h.rows) :
    (if r.versionId = versionId then { r with toVersionColumns := f r.toVersionColumns } else r)
      ∈ (h.update versionId f).rows := List.mem_map_of_mem hr

/-- Tests that agree on the members of a list find the same one. -/
theorem find?_congr_of_mem {α : Type*} {p q : α → Bool} {l : List α} (hpq : ∀ a ∈ l, p a = q a) :
    l.find? p = l.find? q := by
  induction l with
  | nil => rfl
  | cons a l ih =>
    obtain ⟨ha, hl⟩ := List.forall_mem_cons.mp hpq
    rw [List.find?_cons, List.find?_cons, ha, ih hl]

/-- An update that applies nothing and unapplies nothing leaves the same row active. -/
theorem activeRow_update {h : VersionHistory} {versionId : ℕ} {f : VersionColumns → VersionColumns}
    (hstatus : ∀ r ∈ h.rows, r.versionId = versionId →
      ((f r.toVersionColumns).status = .applied ↔ r.status = .applied)) :
    (h.update versionId f).activeRow = h.activeRow.map fun r =>
      if r.versionId = versionId then { r with toVersionColumns := f r.toVersionColumns } else r := by
  unfold activeRow update
  dsimp only
  rw [List.find?_map]
  refine congrArg _ (find?_congr_of_mem fun r hr => ?_)
  dsimp only [Function.comp_apply]
  by_cases hid : r.versionId = versionId
  · rw [if_pos hid]
    exact decide_eq_decide.mpr (hstatus r hr hid)
  · rw [if_neg hid]

end VersionHistory

/-! ## `appdb.config_versions` -/

/-- How a call fails. -/
inductive ConfigError
  /-- `ValueError`: an unknown file name. -/
  | unknownFile
  /-- `StaleVersionError`. -/
  | stale
  /-- `ConfigVersionValidationError`, a violated structural invariant, or whatever a loader or the dry
  run raises. -/
  | invalid (message : String)
  /-- `VersionNotFoundError`. -/
  | notFound
  /-- `NotADraftError`. -/
  | notADraft
  /-- `assert active is not None`. -/
  | noActive
  /-- The route's capability check. -/
  | forbidden
  /-- The route's check that there is something to save, or a reason. -/
  | emptyRequest
  deriving DecidableEq, Repr

/-- The checks on a candidate: the loaders, the structural invariants of `schema.yaml` and the dry run,
given the names in the request and the candidate bundle; `none` when they pass. -/
abbrev ConfigChecks := List String → Bundle → Option String

/-- `{filename: yaml_text}`. -/
abbrev ConfigRequest := List (String × String)

/-- `_diff_bundles(…)["files_changed"]`. -/
def filesChanged (old new : Bundle) : List ConfigFile := ConfigFile.byName.filter fun f => old f ≠ new f

theorem mem_filesChanged {old new : Bundle} {f : ConfigFile} : f ∈ filesChanged old new ↔ old f ≠ new f := by
  unfold filesChanged
  rw [List.mem_filter, decide_eq_true_eq]
  exact and_iff_right f.mem_byName

/-- The row `_ensure_bootstrapped` inserts, from the files on disk. -/
def bootstrapColumns (disk : Bundle) : VersionColumns where
  status := .applied
  content := disk
  basedOnVersion := none
  restoredFromVersion := none
  restoredFile := none
  createdBy := "bootstrap"
  createdByCapability := operationsCapability
  reviewedBy := none
  reviewNote := none
  filesChanged := none

/-- `_ensure_bootstrapped`. -/
def ensureBootstrapped (disk : Bundle) (h : VersionHistory) : VersionHistory :=
  if h.rows.isEmpty then h.insert (bootstrapColumns disk) else h

/-- The request over the base content: files not named are carried forward. -/
def newContent (base : Bundle) (files : ConfigRequest) : Bundle := fun f => (files.lookup f.filename).getD (base f)

/-- The middle of `propose_or_apply`, from the active row it read to the row it will insert. -/
def proposal (checks : ConfigChecks) (active : VersionRow) (files : ConfigRequest) (basedOnVersion : ℕ)
    (actor : Principal) : Except ConfigError VersionColumns :=
  if active.versionId ≠ basedOnVersion then .error .stale
  else
    let content := newContent active.content files
    match checks (files.map Prod.fst) content with
    | some message => .error (.invalid message)
    | none =>
      let changed := filesChanged active.content content
      let schemaChanged := ConfigFile.schema ∈ changed
      let isDraft := schemaChanged ∧ securityCapability ∉ actor.capabilities
      .ok {
        status := if isDraft then .draft else .applied
        content := content
        basedOnVersion := some basedOnVersion
        restoredFromVersion := none
        restoredFile := none
        createdBy := actor.id
        createdByCapability := if isDraft then operationsCapability
          else if schemaChanged then securityCapability else operationsCapability
        reviewedBy := none
        reviewNote := none
        filesChanged := some changed }

/-- A file name the bundle has no file for. -/
def hasUnknownFile (files : ConfigRequest) : Bool := files.any fun p => (ConfigFile.ofFilename p.1).isNone

/-- What a call that succeeds has done. -/
inductive ConfigResult
  /-- This version is the configuration now. -/
  | applied (row : VersionRow)
  /-- A draft is saved or rejected, or a version read: nothing is applied. -/
  | kept (versionId : ℕ)

/-- The id of the version. -/
def ConfigResult.versionId : ConfigResult → ℕ
  | applied row => row.versionId
  | kept versionId => versionId

/-- A new row is applied when its status says so. -/
def VersionRow.result (r : VersionRow) : ConfigResult :=
  if r.status = .applied then .applied r else .kept r.versionId

/-- A call's table afterwards, and its result or failure. -/
abbrev ConfigOutcome := VersionHistory × Except ConfigError ConfigResult

/-- `propose_or_apply` to the end of its transaction. A failure rolls it back, the bootstrap row with it. -/
def proposeOrApply (checks : ConfigChecks) (disk : Bundle) (files : ConfigRequest) (basedOnVersion : ℕ)
    (actor : Principal) (h : VersionHistory) : ConfigOutcome :=
  if hasUnknownFile files then (h, .error .unknownFile)
  else
    let bootstrapped := ensureBootstrapped disk h
    match bootstrapped.activeRow with
    | none => (h, .error .noActive)
    | some active =>
      match proposal checks active files basedOnVersion actor with
      | .error e => (h, .error e)
      | .ok new => (bootstrapped.insert new, .ok (VersionRow.mk new bootstrapped.nextId).result)

/-- The pending draft a reviewer names. -/
def draftToReview (versionId : ℕ) (h : VersionHistory) : Except ConfigError VersionRow :=
  match h.row? versionId with
  | none => .error .notFound
  | some draft => if draft.status ≠ .draft then .error .notADraft else .ok draft

/-- The active version, when the draft is still based on it. -/
def activeBase (draft : VersionRow) (h : VersionHistory) : Except ConfigError VersionRow :=
  match h.activeRow with
  | none => .error .noActive
  | some active => if draft.basedOnVersion ≠ some active.versionId then .error .stale else .ok active

/-- What `approve_draft` writes on the draft's row. -/
def approved (actor : Principal) (c : VersionColumns) : VersionColumns :=
  { c with status := .applied, reviewedBy := some actor.id }

/-- `approve_draft` to the end of its transaction. -/
def approveDraft (versionId : ℕ) (actor : Principal) (h : VersionHistory) : ConfigOutcome :=
  match draftToReview versionId h with
  | .error e => (h, .error e)
  | .ok draft =>
    match activeBase draft h with
    | .error e => (h, .error e)
    | .ok _ =>
      (h.update versionId (approved actor), .ok (.applied ⟨approved actor draft.toVersionColumns, versionId⟩))

/-- What `reject_draft` writes on the draft's row. -/
def rejected (actor : Principal) (reason : String) (c : VersionColumns) : VersionColumns :=
  { c with status := .rejected, reviewedBy := some actor.id, reviewNote := some reason }

/-- `reject_draft`. -/
def rejectDraft (versionId : ℕ) (reason : String) (actor : Principal) (h : VersionHistory) : ConfigOutcome :=
  match draftToReview versionId h with
  | .error e => (h, .error e)
  | .ok _ => (h.update versionId (rejected actor reason), .ok (.kept versionId))

/-- What `restore` asks `propose_or_apply` for: one file of the source version, or all of them. -/
def restoredFiles (source : VersionRow) (filename : Option String) : ConfigRequest :=
  match filename.bind ConfigFile.ofFilename with
  | some f => [(f.filename, source.content f)]
  | none => ConfigFile.all.map fun f => (f.filename, source.content f)

/-- `restore`, its stamp aside. The transaction that reads commits before the proposal. -/
def restore (checks : ConfigChecks) (disk : Bundle) (fromVersionId : ℕ) (filename : Option String)
    (actor : Principal) (h : VersionHistory) : ConfigOutcome :=
  if filename.any fun name => (ConfigFile.ofFilename name).isNone then (h, .error .unknownFile)
  else
    let bootstrapped := ensureBootstrapped disk h
    match bootstrapped.activeRow with
    | none => (h, .error .noActive)
    | some active =>
      match bootstrapped.row? fromVersionId with
      | none => (h, .error .notFound)
      | some source =>
        proposeOrApply checks disk (restoredFiles source filename) active.versionId actor bootstrapped

/-- What `_stamp_restore_provenance` writes on the new version's row. -/
def stamped (fromVersionId : ℕ) (filename : Option String) (c : VersionColumns) : VersionColumns :=
  { c with restoredFromVersion := some fromVersionId, restoredFile := filename }

/-- `_stamp_restore_provenance`. -/
def stampRestore (versionId fromVersionId : ℕ) (filename : Option String) (h : VersionHistory) : VersionHistory :=
  h.update versionId (stamped fromVersionId filename)

/-- `get_active_version`. -/
def getActiveVersion (disk : Bundle) (h : VersionHistory) : ConfigOutcome :=
  let bootstrapped := ensureBootstrapped disk h
  match bootstrapped.activeRow with
  | none => (h, .error .noActive)
  | some active => (bootstrapped, .ok (.kept active.versionId))

/-- The request `import_bundle_from_directory` makes of the files of the directory. -/
def importedFiles (files : Bundle) : ConfigRequest := ConfigFile.all.map fun f => (f.filename, files f)

/-- `import_bundle_from_directory`. -/
def importBundle (checks : ConfigChecks) (disk files : Bundle) (actor : Principal) (h : VersionHistory) :
    ConfigOutcome :=
  match getActiveVersion disk h with
  | (h', .error e) => (h', .error e)
  | (h', .ok active) => proposeOrApply checks disk (importedFiles files) active.versionId actor h'

/-! ## The routes -/

/-- A configuration call. -/
inductive ConfigCall
  /-- `POST /admin/config/versions`. -/
  | propose (files : ConfigRequest) (basedOnVersion : ℕ)
  /-- `POST /admin/config/versions/{id}/approve`. -/
  | approve (versionId : ℕ)
  /-- `POST /admin/config/versions/{id}/reject`. -/
  | reject (versionId : ℕ) (reason : String)
  /-- `POST /admin/config/restore`. -/
  | restore (fromVersionId : ℕ) (filename : Option String)
  /-- `POST /admin/config/import`, with the files of the export directory. -/
  | importBundle (files : Bundle)
  /-- A route that reads the active version; answering a question reads it too. -/
  | read

/-- One request: who calls what, with the files on disk at that time. -/
structure ConfigLabel where
  /-- The caller. -/
  actor : Principal
  /-- The call. -/
  call : ConfigCall
  /-- The `project_config` directory. -/
  disk : Bundle

/-- A route with its capability check, to the end of the transaction that decides: approving and rejecting
take the security capability, the other writes either one. -/
def commit (checks : ConfigChecks) (l : ConfigLabel) (h : VersionHistory) : ConfigOutcome :=
  let isSecurity := securityCapability ∈ l.actor.capabilities
  let isAdmin := operationsCapability ∈ l.actor.capabilities ∨ isSecurity
  match l.call with
  | .propose files basedOnVersion =>
    if ¬ isAdmin then (h, .error .forbidden)
    else if files.isEmpty then (h, .error .emptyRequest)
    else proposeOrApply checks l.disk files basedOnVersion l.actor h
  | .approve versionId => if ¬ isSecurity then (h, .error .forbidden) else approveDraft versionId l.actor h
  | .reject versionId reason =>
    if ¬ isSecurity then (h, .error .forbidden)
    else if reason.isEmpty then (h, .error .emptyRequest)
    else rejectDraft versionId reason l.actor h
  | .restore fromVersionId filename =>
    if ¬ isAdmin then (h, .error .forbidden) else restore checks l.disk fromVersionId filename l.actor h
  | .importBundle files =>
    if ¬ isAdmin then (h, .error .forbidden) else importBundle checks l.disk files l.actor h
  | .read => getActiveVersion l.disk h

/-- What a successful call still writes to the table: the stamp of a restore. -/
def ConfigCall.stamp (call : ConfigCall) (versionId : ℕ) (h : VersionHistory) : VersionHistory :=
  match call with
  | restore fromVersionId filename => stampRestore versionId fromVersionId filename h
  | _ => h

/-- A request. -/
def handle (checks : ConfigChecks) (l : ConfigLabel) (h : VersionHistory) : ConfigOutcome :=
  match commit checks l h with
  | (h', .error e) => (h', .error e)
  | (h', .ok result) => (l.call.stamp result.versionId h', .ok result)

/-- One request after the other. -/
def configStep (checks : ConfigChecks) (h : VersionHistory) (l : ConfigLabel) : Option VersionHistory :=
  some (handle checks l h).1

/-! ## What a call does

`Committed` lists the ways a call ends; every property of the calls below is one case analysis on it. -/

/-- **The outcomes of a call**. -/
inductive Committed (checks : ConfigChecks) (l : ConfigLabel) (h : VersionHistory) : ConfigOutcome → Prop
  /-- Refused, and rolled back. -/
  | refused (e : ConfigError) : Committed checks l h (h, .error e)
  /-- Refused after a transaction that read the active version. -/
  | refusedLate (e : ConfigError) : Committed checks l h (ensureBootstrapped l.disk h, .error e)
  /-- The active version is read. -/
  | read (versionId : ℕ) : Committed checks l h (ensureBootstrapped l.disk h, .ok (.kept versionId))
  /-- A version is saved. -/
  | saved {active : VersionRow} {files : ConfigRequest} {basedOnVersion : ℕ} {new : VersionColumns} :
      (ensureBootstrapped l.disk h).activeRow = some active →
      proposal checks active files basedOnVersion l.actor = .ok new →
      Committed checks l h ((ensureBootstrapped l.disk h).insert new,
        .ok (VersionRow.mk new (ensureBootstrapped l.disk h).nextId).result)
  /-- A draft is approved. -/
  | approved {draft active : VersionRow} : securityCapability ∈ l.actor.capabilities →
      draft ∈ h.rows → draft.status = .draft → h.activeRow = some active →
      draft.basedOnVersion = some active.versionId →
      Committed checks l h (h.update draft.versionId (approved l.actor),
        .ok (.applied ⟨LocalSqlAgent.approved l.actor draft.toVersionColumns, draft.versionId⟩))
  /-- A draft is rejected. -/
  | rejected {draft : VersionRow} (reason : String) : securityCapability ∈ l.actor.capabilities →
      draft ∈ h.rows → draft.status = .draft →
      Committed checks l h (h.update draft.versionId (rejected l.actor reason), .ok (.kept draft.versionId))

section Committed

variable {checks : ConfigChecks} {l : ConfigLabel} {disk : Bundle} {h h' : VersionHistory} {versionId : ℕ}

theorem ensureBootstrapped_of_nonempty (hne : h.rows ≠ []) : ensureBootstrapped disk h = h := by
  unfold ensureBootstrapped
  rw [if_neg]
  rwa [List.isEmpty_iff]

/-- A bootstrapped table has a row. -/
theorem rows_ensureBootstrapped_ne (disk : Bundle) (h : VersionHistory) : (ensureBootstrapped disk h).rows ≠ [] := by
  unfold ensureBootstrapped
  split
  · exact List.cons_ne_nil _ _
  · rename_i hne
    rwa [List.isEmpty_iff] at hne

theorem ensureBootstrapped_idem : ensureBootstrapped disk (ensureBootstrapped disk h) = ensureBootstrapped disk h :=
  ensureBootstrapped_of_nonempty (rows_ensureBootstrapped_ne disk h)

theorem draftToReview_ok {draft : VersionRow} (hdraft : draftToReview versionId h = .ok draft) :
    draft ∈ h.rows ∧ draft.versionId = versionId ∧ draft.status = .draft := by
  unfold draftToReview at hdraft
  split at hdraft
  · cases hdraft
  · rename_i row hrow
    split at hdraft
    · cases hdraft
    · cases hdraft
      obtain ⟨hmem, hid⟩ := VersionHistory.row?_eq_some hrow
      exact ⟨hmem, hid, not_not.mp ‹_›⟩

theorem activeBase_ok {draft active : VersionRow} (hactive : activeBase draft h = .ok active) :
    h.activeRow = some active ∧ draft.basedOnVersion = some active.versionId := by
  unfold activeBase at hactive
  split at hactive
  · cases hactive
  · rename_i row hrow
    split at hactive
    · cases hactive
    · cases hactive
      exact ⟨hrow, not_not.mp ‹_›⟩

/-- A proposal is based on the active version it was made against. -/
theorem basedOnVersion_of_proposal {actor : Principal} {active : VersionRow} {files : ConfigRequest}
    {basedOnVersion : ℕ} {new : VersionColumns}
    (hnew : proposal checks active files basedOnVersion actor = .ok new) :
    new.basedOnVersion = some active.versionId := by
  unfold proposal at hnew
  split at hnew
  · cases hnew
  · rename_i hfresh
    dsimp only at hnew
    split at hnew
    · cases hnew
    · cases hnew
      exact congrArg some (not_not.mp hfresh).symm

theorem proposeOrApply_committed (files : ConfigRequest) (basedOnVersion : ℕ) :
    Committed checks l h (proposeOrApply checks l.disk files basedOnVersion l.actor h) := by
  unfold proposeOrApply
  split
  · exact .refused _
  · dsimp only
    split
    · exact .refused _
    · rename_i active hactive
      split
      · exact .refused _
      · exact .saved hactive ‹_›

/-- A proposal after the table was bootstrapped. -/
theorem proposeOrApply_committed_late (files : ConfigRequest) (basedOnVersion : ℕ) :
    Committed checks l h
      (proposeOrApply checks l.disk files basedOnVersion l.actor (ensureBootstrapped l.disk h)) := by
  unfold proposeOrApply
  rw [ensureBootstrapped_idem]
  split
  · exact .refusedLate _
  · dsimp only
    split
    · exact .refusedLate _
    · rename_i active hactive
      split
      · exact .refusedLate _
      · exact .saved hactive ‹_›

theorem approveDraft_committed (hsecurity : securityCapability ∈ l.actor.capabilities) (versionId : ℕ) :
    Committed checks l h (approveDraft versionId l.actor h) := by
  unfold approveDraft
  split
  · exact .refused _
  · rename_i draft hdraft
    obtain ⟨hmem, rfl, hstatus⟩ := draftToReview_ok hdraft
    split
    · exact .refused _
    · rename_i active hactive
      obtain ⟨hrow, hbased⟩ := activeBase_ok hactive
      exact .approved hsecurity hmem hstatus hrow hbased

theorem rejectDraft_committed (hsecurity : securityCapability ∈ l.actor.capabilities) (versionId : ℕ)
    (reason : String) : Committed checks l h (rejectDraft versionId reason l.actor h) := by
  unfold rejectDraft
  split
  · exact .refused _
  · rename_i draft hdraft
    obtain ⟨hmem, rfl, hstatus⟩ := draftToReview_ok hdraft
    exact .rejected reason hsecurity hmem hstatus

theorem restore_committed (fromVersionId : ℕ) (filename : Option String) :
    Committed checks l h (restore checks l.disk fromVersionId filename l.actor h) := by
  unfold restore
  split
  · exact .refused _
  · dsimp only
    split
    · exact .refused _
    · split
      · exact .refused _
      · exact proposeOrApply_committed_late _ _

theorem getActiveVersion_committed : Committed checks l h (getActiveVersion l.disk h) := by
  unfold getActiveVersion
  dsimp only
  split
  · exact .refused _
  · exact .read _

theorem importBundle_committed (files : Bundle) :
    Committed checks l h (importBundle checks l.disk files l.actor h) := by
  unfold importBundle getActiveVersion
  dsimp only
  cases (ensureBootstrapped l.disk h).activeRow with
  | none => exact .refused _
  | some active => exact proposeOrApply_committed_late _ _

/-- **Every call ends in one of these ways.** -/
theorem commit_committed (checks : ConfigChecks) (l : ConfigLabel) (h : VersionHistory) :
    Committed checks l h (commit checks l h) := by
  unfold commit
  dsimp only
  cases l.call with
  | propose files basedOnVersion =>
    dsimp only
    split
    · exact .refused _
    · split
      · exact .refused _
      · exact proposeOrApply_committed _ _
  | approve versionId =>
    dsimp only
    split
    · exact .refused _
    · exact approveDraft_committed (not_not.mp ‹_›) _
  | reject versionId reason =>
    dsimp only
    split
    · exact .refused _
    · split
      · exact .refused _
      · exact rejectDraft_committed (not_not.mp ‹_›) _ _
  | restore fromVersionId filename =>
    dsimp only
    split
    · exact .refused _
    · exact restore_committed _ _
  | importBundle files =>
    dsimp only
    split
    · exact .refused _
    · exact importBundle_committed _
  | read => exact getActiveVersion_committed

end Committed

end LocalSqlAgent
