import LocalSqlAgent.Appdb.ConfigVersions
import LocalSqlAgent.Lib.FileWrites
import LocalSqlAgent.Lib.Transition

/-! # Applying a configuration version

A version is applied when its row is committed; only then are the nine files written to
`project_config`, the bundle exported, and the loaded configuration dropped. Any of these may raise, and
nothing takes the row back. `applyAtomic_iff` says for which faults an apply is all or nothing. -/

namespace LocalSqlAgent

/-! ## The state -/

/-- The `config_export_dir`. -/
structure ExportDir where
  /-- The files of the bundle. -/
  files : Bundle
  /-- `version_id` of the manifest. -/
  manifest : Option ℕ

/-- The application database, the directories and the process. -/
structure ConfigState where
  /-- `config_bundle_versions`. -/
  history : VersionHistory
  /-- `project_config`; a file that does not exist is empty here. -/
  disk : Bundle
  /-- `config_export_dir`, when set. -/
  exportDir : Option ExportDir
  /-- What the loader modules hold of each file; the caches of the version id and the prompt prefix are
  left out. -/
  loaded : ConfigFile → Option String

/-- Where the write of a bundle raises. -/
inductive WriteFault
  /-- `mkdir`. -/
  | mkdir
  /-- `write_text` of a file, and what it leaves there: the old text, nothing, a part of the new one. -/
  | file (f : ConfigFile) (left : String)
  deriving DecidableEq

/-- Where an apply raises. -/
inductive ApplyFault
  /-- In `_write_bundle_to_disk`. -/
  | bundle (w : WriteFault)
  /-- In `_write_export`, among the files. -/
  | exportFiles (w : WriteFault)
  /-- In `_write_export`, at the manifest. -/
  | manifest
  /-- In `_invalidate_runtime_caches`, after so many of the changed files. -/
  | reload (done : ℕ)
  deriving DecidableEq

/-! ## What an apply does after its commit -/

/-- Write the files of a bundle to a directory. -/
def writeBundle (content : Bundle) (fault : Option WriteFault) (dir : Bundle) : Bool × Bundle :=
  match fault with
  | some .mkdir => (false, dir)
  | some (.file f left) => writeEach content (some (f, left)) ConfigFile.all dir
  | none => writeEach content none ConfigFile.all dir

/-- The fault of the bundle's own write. -/
def ApplyFault.bundle? : ApplyFault → Option WriteFault
  | bundle w => some w
  | _ => none

/-- The fault of the export's files. -/
def ApplyFault.exportFiles? : ApplyFault → Option WriteFault
  | exportFiles w => some w
  | _ => none

/-- `_write_export`. -/
def writeExport (content : Bundle) (versionId : ℕ) (fault : Option ApplyFault) :
    Option ExportDir → Bool × Option ExportDir
  | none => (true, none)
  | some dir =>
    match writeBundle content (fault.bind ApplyFault.exportFiles?) dir.files with
    | (false, files) => (false, some { dir with files := files })
    | (true, files) =>
      if fault = some .manifest then (false, some ⟨files, none⟩) else (true, some ⟨files, some versionId⟩)

/-- `_invalidate_runtime_caches`: `schema.yaml` has no loader module and stays loaded. -/
def invalidateRuntimeCaches (filesChanged : List ConfigFile) (fault : Option ApplyFault)
    (loaded : ConfigFile → Option String) : Bool × (ConfigFile → Option String) :=
  let dropped (names : List ConfigFile) := fun f => if f ∈ names ∧ f ≠ .schema then none else loaded f
  match fault with
  | some (.reload done) => (false, dropped (filesChanged.take done))
  | _ => (true, dropped filesChanged)

/-- What follows the commit of an applied version; whether nothing raised, and the state. -/
def putInForce (row : VersionRow) (fault : Option ApplyFault) (s : ConfigState) : Bool × ConfigState :=
  match writeBundle row.content (fault.bind ApplyFault.bundle?) s.disk with
  | (false, disk) => (false, { s with disk := disk })
  | (true, disk) =>
    match writeExport row.content row.versionId fault s.exportDir with
    | (false, exportDir) => (false, { s with disk := disk, exportDir := exportDir })
    | (true, exportDir) =>
      let reloaded := invalidateRuntimeCaches (row.filesChanged.getD []) fault s.loaded
      (reloaded.1, { s with disk := disk, exportDir := exportDir, loaded := reloaded.2 })

/-- A request, with the fault it meets. -/
def request (checks : ConfigChecks) (actor : Principal) (call : ConfigCall) (fault : Option ApplyFault)
    (s : ConfigState) : ConfigState :=
  match commit checks ⟨actor, call, s.disk⟩ s.history with
  | (h, .error _) => { s with history := h }
  | (h, .ok (.kept versionId)) => { s with history := call.stamp versionId h }
  | (h, .ok (.applied row)) =>
    match putInForce row fault { s with history := h } with
    | (false, s') => s'
    | (true, s') => { s' with history := call.stamp row.versionId s'.history }

/-- What happens to a deployment. -/
inductive ConfigEvent
  /-- A request. -/
  | request (actor : Principal) (call : ConfigCall) (fault : Option ApplyFault)
  /-- A loader module reads its file, unless it holds it. -/
  | load (f : ConfigFile)
  /-- A file is edited in place. -/
  | edit (f : ConfigFile) (text : String)

/-- One event. -/
def configEventStep (checks : ConfigChecks) (s : ConfigState) : ConfigEvent → Option ConfigState
  | .request actor call fault => some (request checks actor call fault s)
  | .load f => some { s with loaded := Function.update s.loaded f (some ((s.loaded f).getD (s.disk f))) }
  | .edit f text => some { s with disk := Function.update s.disk f text }

/-! ## All or nothing -/

/-- The active version: its id and content. -/
def VersionHistory.active (h : VersionHistory) : Option (ℕ × Bundle) :=
  h.activeRow.map fun r => (r.versionId, r.content)

/-- **All or nothing**: a new version is active and on disk, or the version there was still is, and what
is on disk and loaded is as it was. -/
def AllOrNothing (s s' : ConfigState) : Prop :=
  (∃ versionId content, s'.history.active = some (versionId, content) ∧
    s.history.active.map Prod.fst ≠ some versionId ∧ s'.disk = content) ∨
  (s'.history.active = s.history.active ∧ s'.disk = s.disk ∧ s'.loaded = s.loaded)

/-- Every request is all or nothing. -/
def ApplyAtomic (checks : ConfigChecks) (s : ConfigState) (e : ConfigEvent) : Prop :=
  ∀ actor call fault, e = .request actor call fault → AllOrNothing s (request checks actor call fault s)

/-- A fault that leaves the content on disk nonetheless: what was to be written is there already, or in
the file the failed write left it. -/
def WriteFault.Harmless (content dir : Bundle) : WriteFault → Prop
  | mkdir => dir = content
  | file f left => left = content f ∧ ∀ g, g ∉ ConfigFile.all.takeWhile (· ≠ f) → g ≠ f → dir g = content g

/-- When a request applies a version, no write of it to `project_config` raises with harm. -/
def WritesSpared (checks : ConfigChecks) (s : ConfigState) (e : ConfigEvent) : Prop :=
  ∀ actor call w h row, e = .request actor call (some (.bundle w)) →
    commit checks ⟨actor, call, s.disk⟩ s.history = (h, .ok (.applied row)) → w.Harmless row.content s.disk

/-- A version is based on an older one. -/
def BasedOnOlder (h : VersionHistory) : Prop :=
  ∀ r ∈ h.rows, ∀ v, r.basedOnVersion = some v → v < r.versionId

variable {checks : ConfigChecks} {actor : Principal} {call : ConfigCall} {l : ConfigLabel}
  {h : VersionHistory} {o : ConfigOutcome} {s s' : ConfigState} {row : VersionRow} {versionId : ℕ}
  {fault : Option ApplyFault}

/-! ## What the commit does to the active version -/

theorem active_insert_of_ne {new : VersionColumns} (hnew : new.status ≠ .applied) :
    (h.insert new).active = h.active := by
  unfold VersionHistory.active
  rw [VersionHistory.activeRow_insert_of_ne hnew]

theorem active_update {f : VersionColumns → VersionColumns} (hcontent : ∀ c, (f c).content = c.content)
    (hstatus : ∀ r ∈ h.rows, r.versionId = versionId →
      ((f r.toVersionColumns).status = .applied ↔ r.status = .applied)) :
    (h.update versionId f).active = h.active := by
  unfold VersionHistory.active
  rw [VersionHistory.activeRow_update hstatus, Option.map_map]
  refine congrFun (congrArg _ (funext fun r => ?_)) _
  dsimp only [Function.comp_apply]
  split
  · exact congrArg (Prod.mk r.versionId) (hcontent _)
  · rfl

theorem active_stamp (call : ConfigCall) (versionId : ℕ) : (call.stamp versionId h).active = h.active := by
  cases call with
  | restore fromVersionId filename => exact active_update (fun _ => rfl) fun _ _ _ => Iff.rfl
  | _ => rfl

/-- A draft is not among the applied rows, so what is written on it leaves them. -/
theorem active_update_draft {draft : VersionRow} {f : VersionColumns → VersionColumns} (hdraft : draft ∈ h.rows)
    (hstatus : draft.status = .draft) (hcontent : ∀ c, (f c).content = c.content)
    (hf : ∀ c, (f c).status ≠ .applied) : (h.update draft.versionId f).active = h.active := by
  refine active_update hcontent fun r hr hid => iff_of_false (hf _) ?_
  rw [h.eq_of_versionId hr hdraft hid, hstatus]
  decide

/-- A call that applies nothing leaves the active version, but for the bootstrap. -/
theorem Committed.active_of_kept (ho : Committed checks l h o) (hkept : ∀ row, o.2 ≠ .ok (.applied row)) :
    o.1.active = h.active ∨ o.1.active = (ensureBootstrapped l.disk h).active := by
  cases ho with
  | refused e => exact .inl rfl
  | refusedLate e => exact .inr rfl
  | read versionId => exact .inr rfl
  | @saved active files basedOnVersion new hactive hnew =>
    refine .inr (active_insert_of_ne fun happlied => ?_)
    refine hkept ⟨new, (ensureBootstrapped l.disk h).nextId⟩ ?_
    dsimp only [VersionRow.result]
    rw [if_pos happlied]
  | approved => exact absurd rfl (hkept _)
  | rejected reason _ hdraft hstatus =>
    exact .inl (active_update_draft hdraft hstatus (fun _ => rfl) fun _ => nofun)

/-- The version that was active is older than the next row. -/
theorem active_ne_nextId (disk : Bundle) (h : VersionHistory) :
    h.active.map Prod.fst ≠ some (ensureBootstrapped disk h).nextId := by
  intro heq
  rw [VersionHistory.active, Option.map_map, Option.map_eq_some_iff] at heq
  obtain ⟨a, ha, hid⟩ := heq
  have hmem := VersionHistory.mem_of_activeRow ha
  rw [ensureBootstrapped_of_nonempty (List.ne_nil_of_mem hmem)] at hid
  exact Nat.ne_of_lt (h.lt_nextId a hmem) hid

/-- **A call that applies a version** makes it the active one, and it was not before. -/
theorem Committed.active_of_applied (ho : Committed checks l h o) (hbased : BasedOnOlder h)
    (hrow : o.2 = .ok (.applied row)) :
    o.1.active = some (row.versionId, row.content) ∧ h.active.map Prod.fst ≠ some row.versionId := by
  cases ho with
  | refused e => cases hrow
  | refusedLate e => cases hrow
  | read versionId => cases hrow
  | @saved active files basedOnVersion new hactive hnew =>
    dsimp only [VersionRow.result] at hrow
    split at hrow
    · cases hrow
      refine ⟨?_, active_ne_nextId l.disk h⟩
      unfold VersionHistory.active
      rw [VersionHistory.activeRow_insert_applied ‹_›]
      rfl
    · cases hrow
  | @approved draft active hsecurity hdraft hstatus hactive hbasedOn =>
    cases hrow
    have holder : active.versionId < draft.versionId := hbased draft hdraft _ hbasedOn
    obtain ⟨-, -, hnewest⟩ := VersionHistory.activeRow_eq_some.mp hactive
    refine ⟨?_, ?_⟩
    · -- the approved draft is newer than the active version, hence than every applied one
      have hnow : (h.update draft.versionId (LocalSqlAgent.approved l.actor)).activeRow
          = some ⟨LocalSqlAgent.approved l.actor draft.toVersionColumns, draft.versionId⟩ := by
        refine VersionHistory.activeRow_eq_some.mpr ⟨?_, rfl, fun r' hr' happlied => ?_⟩
        · have hmem := @VersionHistory.mem_update h draft.versionId (LocalSqlAgent.approved l.actor) draft hdraft
          rwa [if_pos rfl] at hmem
        · obtain ⟨r, hr, rfl⟩ := List.mem_map.mp hr'
          split
          · exact Nat.le_of_eq ‹_›
          · rename_i hne
            rw [if_neg hne] at happlied
            exact (hnewest r hr happlied).trans (Nat.le_of_lt holder)
      rw [VersionHistory.active, hnow]
      rfl
    · rw [VersionHistory.active, hactive]
      intro heq
      exact Nat.ne_of_lt holder (Option.some_inj.mp heq)
  | rejected => cases hrow

/-! ## Versions are based on older ones -/

theorem BasedOnOlder.insert (hold : BasedOnOlder h) {new : VersionColumns}
    (hnew : ∀ v, new.basedOnVersion = some v → v < h.nextId) : BasedOnOlder (h.insert new) :=
  List.forall_mem_cons.mpr ⟨hnew, hold⟩

theorem BasedOnOlder.update (hold : BasedOnOlder h) {f : VersionColumns → VersionColumns}
    (hf : ∀ c, (f c).basedOnVersion = c.basedOnVersion) : BasedOnOlder (h.update versionId f) := by
  intro r' hr' v hv
  obtain ⟨r, hr, rfl⟩ := List.mem_map.mp hr'
  split at hv
  · rename_i hid
    rw [if_pos hid]
    exact hold r hr v ((hf _).symm.trans hv)
  · rename_i hid
    rw [if_neg hid]
    exact hold r hr v hv

theorem BasedOnOlder.bootstrap (hold : BasedOnOlder h) (disk : Bundle) :
    BasedOnOlder (ensureBootstrapped disk h) := by
  unfold ensureBootstrapped
  split
  · exact hold.insert fun _ hv => nomatch hv
  · exact hold

theorem BasedOnOlder.stamp (hold : BasedOnOlder h) (call : ConfigCall) (versionId : ℕ) :
    BasedOnOlder (call.stamp versionId h) := by
  cases call with
  | restore fromVersionId filename => exact hold.update fun _ => rfl
  | _ => exact hold

theorem Committed.basedOnOlder (ho : Committed checks l h o) (hold : BasedOnOlder h) : BasedOnOlder o.1 := by
  cases ho with
  | refused e => exact hold
  | refusedLate e => exact hold.bootstrap _
  | read versionId => exact hold.bootstrap _
  | saved hactive hnew =>
    refine (hold.bootstrap _).insert fun v hv => ?_
    rw [basedOnVersion_of_proposal hnew] at hv
    cases hv
    exact VersionHistory.lt_nextId _ _ (VersionHistory.mem_of_activeRow hactive)
  | approved => exact hold.update fun _ => rfl
  | rejected => exact hold.update fun _ => rfl

/-! ## What the writes leave -/

theorem putInForce_history (row : VersionRow) (fault : Option ApplyFault) (s : ConfigState) :
    (putInForce row fault s).2.history = s.history := by
  unfold putInForce
  split
  · rfl
  · split <;> rfl

theorem putInForce_disk (row : VersionRow) (fault : Option ApplyFault) (s : ConfigState) :
    (putInForce row fault s).2.disk = (writeBundle row.content (fault.bind ApplyFault.bundle?) s.disk).2 := by
  unfold putInForce
  split
  · rename_i disk hwrite
    rw [hwrite]
  · rename_i disk hwrite
    rw [hwrite]
    split <;> rfl

/-- The bundle is on disk after the writes unless one of them raised with harm. -/
theorem writeBundle_eq_iff (content dir : Bundle) (fault : Option WriteFault) :
    (writeBundle content fault dir).2 = content ↔ ∀ w, fault = some w → w.Harmless content dir := by
  unfold writeBundle
  cases fault with
  | none =>
    refine iff_of_true ?_ nofun
    rw [writeEach_none]
    exact funext fun f => if_pos f.mem_all
  | some w =>
    have hthis : (∀ w', some w = some w' → w'.Harmless content dir) ↔ w.Harmless content dir :=
      ⟨fun hall => hall w rfl, fun hw w' heq => Option.some_inj.mp heq ▸ hw⟩
    rw [hthis]
    cases w with
    | mkdir => exact Iff.rfl
    | file f left => exact writeEach_fail_eq_iff ConfigFile.mem_all

theorem bundle?_eq_some {fault : Option ApplyFault} {w : WriteFault} :
    fault.bind ApplyFault.bundle? = some w ↔ fault = some (.bundle w) := by
  constructor
  · intro heq
    obtain ⟨f, rfl, hf⟩ := Option.bind_eq_some_iff.mp heq
    cases f with
    | bundle w' => exact congrArg (some ∘ ApplyFault.bundle) (Option.some_inj.mp hf)
    | _ => cases hf
  · rintro rfl
    rfl

/-! ## Which requests are all or nothing -/

/-- Nothing but the table touched, and the version it had or bootstrapped still active. -/
theorem allOrNothing_of_active {h' : VersionHistory} (hactive : h'.active = s.history.active ∨
      h'.active = (ensureBootstrapped s.disk s.history).active) : AllOrNothing s { s with history := h' } := by
  obtain hsame | hboot := hactive
  · exact .inr ⟨hsame, rfl, rfl⟩
  · by_cases hempty : s.history.rows = []
    · -- the first version is what the disk holds
      have hnone : s.history.active = none := by
        unfold VersionHistory.active VersionHistory.activeRow
        rw [hempty]
        rfl
      refine .inl ⟨s.history.nextId, s.disk, ?_, ?_, rfl⟩
      · show h'.active = _
        rw [hboot, ensureBootstrapped, if_pos (List.isEmpty_iff.mpr hempty), VersionHistory.active,
          VersionHistory.activeRow_insert_applied rfl]
        rfl
      · rw [hnone]
        exact nofun
    · rw [ensureBootstrapped_of_nonempty hempty] at hboot
      exact .inr ⟨hboot, rfl, rfl⟩

/-- **An applied version is all or nothing** exactly when the disk holds it in the end. -/
theorem allOrNothing_applied_iff {h' : VersionHistory}
    (hcommit : commit checks ⟨actor, call, s.disk⟩ s.history = (h', .ok (.applied row)))
    (hbased : BasedOnOlder s.history) :
    AllOrNothing s (request checks actor call fault s) ↔
      (writeBundle row.content (fault.bind ApplyFault.bundle?) s.disk).2 = row.content := by
  have ho := commit_committed checks ⟨actor, call, s.disk⟩ s.history
  rw [hcommit] at ho
  obtain ⟨hactive, hnew⟩ := ho.active_of_applied hbased rfl
  have hrequest : (request checks actor call fault s).history.active = some (row.versionId, row.content) ∧
      (request checks actor call fault s).disk
        = (writeBundle row.content (fault.bind ApplyFault.bundle?) s.disk).2 := by
    have hhistory := putInForce_history row fault { s with history := h' }
    have hdisk := putInForce_disk row fault { s with history := h' }
    unfold request
    rw [hcommit]
    dsimp only
    split
    · rename_i s' hput
      rw [hput] at hhistory hdisk
      exact ⟨(congrArg VersionHistory.active hhistory).trans hactive, hdisk⟩
    · rename_i s' hput
      rw [hput] at hhistory hdisk
      refine ⟨?_, hdisk⟩
      rw [active_stamp]
      exact (congrArg VersionHistory.active hhistory).trans hactive
  unfold AllOrNothing
  rw [hrequest.1, hrequest.2]
  constructor
  · rintro (⟨versionId, content, hnow, -, hdisk⟩ | ⟨hsame, -, -⟩)
    · cases hnow
      exact hdisk
    · rw [← hsame] at hnew
      exact absurd rfl hnew
  · exact fun hdisk => .inl ⟨_, _, rfl, hnew, hdisk⟩

theorem allOrNothing_of_not_applied
    (hkept : ∀ h' row, commit checks ⟨actor, call, s.disk⟩ s.history ≠ (h', .ok (.applied row))) :
    AllOrNothing s (request checks actor call fault s) := by
  have ho := commit_committed checks ⟨actor, call, s.disk⟩ s.history
  have hactive := ho.active_of_kept fun row heq => hkept _ row (Prod.ext rfl heq)
  unfold request
  split
  · rename_i h' e heq
    rw [heq] at hactive
    exact allOrNothing_of_active hactive
  · rename_i h' versionId heq
    rw [heq] at hactive
    refine allOrNothing_of_active ?_
    rwa [active_stamp]
  · rename_i h' row heq
    exact absurd heq (hkept h' row)

/-- A request is all or nothing exactly when its writes are spared. -/
theorem applyAtomic_step_iff (hbased : BasedOnOlder s.history) (e : ConfigEvent) :
    ApplyAtomic checks s e ↔ WritesSpared checks s e := by
  constructor
  · intro hatomic actor call w h row he hcommit
    subst he
    have hall := (allOrNothing_applied_iff hcommit hbased).mp (hatomic actor call _ rfl)
    exact (writeBundle_eq_iff _ _ _).mp hall w rfl
  · intro hspared actor call fault he
    subst he
    by_cases happlied : ∃ h' row, commit checks ⟨actor, call, s.disk⟩ s.history = (h', .ok (.applied row))
    · obtain ⟨h', row, hcommit⟩ := happlied
      refine (allOrNothing_applied_iff hcommit hbased).mpr ((writeBundle_eq_iff _ _ _).mpr fun w hw => ?_)
      exact hspared actor call w h' row (by rw [bundle?_eq_some.mp hw]) hcommit
    · push Not at happlied
      exact allOrNothing_of_not_applied happlied

/-- Every event keeps versions based on older ones. -/
theorem BasedOnOlder.step (hold : BasedOnOlder s.history) {e : ConfigEvent}
    (hstep : configEventStep checks s e = some s') : BasedOnOlder s'.history := by
  cases e with
  | request actor call fault =>
    cases hstep
    have ho := (commit_committed checks ⟨actor, call, s.disk⟩ s.history).basedOnOlder hold
    unfold request
    split
    · rename_i h' e heq
      rwa [heq] at ho
    · rename_i h' versionId heq
      rw [heq] at ho
      exact ho.stamp _ _
    · rename_i h' row heq
      rw [heq] at ho
      have hhistory := putInForce_history row fault { s with history := h' }
      split
      · rename_i s' hput
        rw [hput] at hhistory
        exact hhistory.symm ▸ ho
      · rename_i s' hput
        rw [hput] at hhistory
        refine BasedOnOlder.stamp ?_ _ _
        exact hhistory.symm ▸ ho
  | load f =>
    cases hstep
    exact hold
  | edit f text =>
    cases hstep
    exact hold

/-- A table without versions. -/
def VersionHistory.empty : VersionHistory := ⟨[], VersionHistory.sorted_nil⟩

/-- **The runs whose every apply is all or nothing** are those whose writes are spared, from any new
deployment. -/
theorem applyAtomic_iff (checks : ConfigChecks) (disk : Bundle) (exportDir : Option ExportDir)
    (loaded : ConfigFile → Option String) (s : ConfigState) (events : List ConfigEvent) :
    RunWhere (configEventStep checks) (ApplyAtomic checks) ⟨.empty, disk, exportDir, loaded⟩ events s ↔
      RunWhere (configEventStep checks) (WritesSpared checks) ⟨.empty, disk, exportDir, loaded⟩ events s := by
  refine RunWhere.congr_of_invariant (I := fun s => BasedOnOlder s.history) nofun ?_ ?_
  · exact fun _ _ _ hI hstep => hI.step hstep
  · exact fun _ e hI => applyAtomic_step_iff hI e

/-- A deployment without versions whose files all hold one text. -/
def newDeployment : ConfigState := ⟨.empty, fun _ => "v1", none, fun _ => none⟩

/-- Version 2: two files saved over the bootstrap version by an operations administrator; the disk is full
when the second is written. -/
def tornApply : ConfigState :=
  request (fun _ _ => none) ⟨"ops", "ops", [], {"operations"}⟩
    (.propose [("aliases.yaml", "v2"), ("metrics.yaml", "v2")] 1) (some (.bundle (.file .metrics ""))) newDeployment

/-- **A torn apply**: version 2 is active, the disk holds its aliases, an empty metrics file and the other
files of version 1. -/
theorem tornApply_not_atomic :
    (tornApply.history.active.map fun p => (p.1, p.2 .aliases, p.2 .metrics)) = some (2, "v2", "v2") ∧
    (tornApply.disk .aliases, tornApply.disk .metrics, tornApply.disk .entities) = ("v2", "", "v1") ∧
    ¬ AllOrNothing newDeployment tornApply := by
  have hactive : (tornApply.history.active.map fun p => (p.1, p.2 .aliases, p.2 .metrics))
      = some (2, "v2", "v2") := by decide
  have hdisk : (tornApply.disk .aliases, tornApply.disk .metrics, tornApply.disk .entities) = ("v2", "", "v1") := by
    decide
  refine ⟨hactive, hdisk, ?_⟩
  rintro (⟨versionId, content, hnow, -, hcontent⟩ | ⟨-, hsame, -⟩)
  · rw [hnow, ← hcontent] at hactive
    simp only [Option.map_some, Option.some.injEq, Prod.mk.injEq] at hactive hdisk
    exact absurd (hactive.2.2.symm.trans hdisk.2.1) (by decide)
  · rw [hsame] at hdisk
    exact absurd hdisk (by decide)

end LocalSqlAgent
