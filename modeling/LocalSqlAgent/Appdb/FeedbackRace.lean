import LocalSqlAgent.Appdb.Feedback
import LocalSqlAgent.Lib.Pool

/-! # Overlapping resolutions

`resolve_feedback` statement by statement: the arguments are checked, a select finds the flag open, an
update by id alone resolves it, and the row is read back after the commit. The select takes no lock, so any
number of calls may overlap, with flags raised and withdrawn between their statements.

* **`ResolvedOnce`**: every resolved flag was resolved by exactly one call, an open one by none.
* **`keepsResolution_iff`**: which runs keep it and never overwrite a resolution. -/

namespace LocalSqlAgent

/-- How far a call of `resolve_feedback` has come. In the last three, `resolved` is bookkeeping for the
proofs: the update found a row. -/
inductive ResolvePhase where
  /-- The select is to come. -/
  | selecting (outcome : ResolutionOutcome)
  /-- The flag was open; the update is to come. -/
  | updating (outcome : ResolutionOutcome)
  /-- The update is committed; the row is to be read back. -/
  | reading (resolved : Bool)
  /-- It returned the row. -/
  | returned (resolved : Bool)
  /-- It raised. -/
  | raised (resolved : Bool)
  deriving DecidableEq, Repr

/-- The call's update resolved a flag. -/
def ResolvePhase.resolved : ResolvePhase → Bool
  | .reading resolved | .returned resolved | .raised resolved => resolved
  | _ => false

/-- A call of `resolve_feedback`. -/
structure ResolveCall where
  /-- `feedback_id`. -/
  feedbackId : ℕ
  /-- Its other arguments. -/
  args : Resolution
  /-- How far it has come. -/
  phase : ResolvePhase
  deriving DecidableEq, Repr

/-- The table and the calls. -/
structure ResolveState where
  /-- `turn_feedback`. -/
  flags : List Flag
  /-- The calls, in the order they were made. -/
  calls : List ResolveCall
  deriving DecidableEq, Repr

/-- What happens next. -/
inductive ResolveStep where
  /-- A flag is raised on an audited turn. -/
  | flag (sessionId turnId : String) (t : AuditedTurn) (reporter category note now : String)
  /-- A reporter's open flags on a turn are withdrawn. -/
  | withdraw (sessionId turnId reporter : String)
  /-- A call checks its arguments. -/
  | resolve (feedbackId : ℕ) (args : Resolution)
  /-- The select of the call at an index. -/
  | select (i : ℕ)
  /-- The update of the call at an index, committed. -/
  | update (i : ℕ) (now : String)
  /-- The call at an index reads the row back. -/
  | read (i : ℕ)
  /-- A statement of the call at an index fails. -/
  | fail (i : ℕ)

/-- A call reaches another phase. -/
def ResolveState.setPhase (s : ResolveState) (i : ℕ) (call : ResolveCall) (phase : ResolvePhase) :
    ResolveState :=
  { s with calls := s.calls.set i { call with phase := phase } }

section Interleaved

variable (repr : String → String)

/-- **One step.** -/
def resolveStep (s : ResolveState) : ResolveStep → Option ResolveState
  | .flag sessionId turnId t reporter category note now =>
    if category ∈ feedbackCategories then
      some { s with flags := s.flags ++ [newFlag s.flags sessionId turnId t reporter category note now] }
    else some s
  | .withdraw sessionId turnId reporter =>
    some { s with flags := withdrawOpenFlags s.flags sessionId turnId reporter }
  | .resolve feedbackId args =>
    match resolutionChecks repr args with
    | .ok outcome => some { s with calls := s.calls ++ [⟨feedbackId, args, .selecting outcome⟩] }
    | .error _ => some s
  | .select i =>
    match s.calls[i]? with
    | some call =>
      match call.phase with
      | .selecting outcome =>
        match openCheck repr s.flags call.feedbackId with
        | .ok () => some (s.setPhase i call (.updating outcome))
        | .error _ => some (s.setPhase i call (.raised false))
      | _ => none
    | none => none
  | .update i now =>
    match s.calls[i]? with
    | some call =>
      match call.phase with
      | .updating outcome =>
        -- the condition is the id alone: the status is not looked at again
        some (ResolveState.setPhase
          { s with flags := resolveFlag s.flags call.feedbackId call.args outcome now }
          i call (.reading (s.flags.any fun f => f.feedbackId = call.feedbackId)))
      | _ => none
    | none => none
  | .read i =>
    match s.calls[i]? with
    | some call =>
      match call.phase with
      | .reading resolved =>
        if s.flags.any fun f => f.feedbackId = call.feedbackId then
          some (s.setPhase i call (.returned resolved))
        else some (s.setPhase i call (.raised resolved))
      | _ => none
    | none => none
  | .fail i =>
    match s.calls[i]? with
    | some call =>
      match call.phase with
      | .selecting _ | .updating _ => some (s.setPhase i call (.raised false))
      | .reading resolved => some (s.setPhase i call (.raised resolved))
      | _ => none
    | none => none

/-- How many calls resolved a flag. -/
def ResolveState.resolvers (s : ResolveState) (feedbackId : ℕ) : ℕ :=
  s.calls.countP fun call => call.feedbackId = feedbackId ∧ call.phase.resolved

/-- **Every resolved flag was resolved by exactly one call**, an open one by none. -/
structure ResolvedOnce (s : ResolveState) : Prop where
  /-- The ids are the primary key. -/
  keys : (s.flags.map (·.feedbackId)).Nodup
  /-- One call for a resolved flag. -/
  one : ∀ f ∈ s.flags, s.resolvers f.feedbackId = if f.status = .resolved then 1 else 0
  /-- No call for an id without a row. -/
  none : ∀ id, id ∉ s.flags.map (·.feedbackId) → s.resolvers id = 0

/-- **A step overwrites no resolution**, and leaves each flag with one call that resolved it. -/
def KeepsResolution (s : ResolveState) (l : ResolveStep) : Prop :=
  ∀ s', resolveStep repr s l = some s' → ResolvedOnce s' ∧ ∀ f ∈ s.flags, f.status = .resolved → f ∈ s'.flags

/-- The flag an update is about is still open. -/
def StillOpen (s : ResolveState) (l : ResolveStep) : Prop :=
  ∀ i now call outcome, l = .update i now → s.calls[i]? = some call → call.phase = .updating outcome →
    ∀ f ∈ s.flags, f.feedbackId = call.feedbackId → f.status = .opened

end Interleaved

variable {repr : String → String} {s s' : ResolveState} {i : ℕ} {call : ResolveCall} {phase : ResolvePhase}

/-! ## Steps that resolve nothing -/

/-- A call that goes on without resolving changes no count. -/
theorem resolvers_setPhase (hcall : s.calls[i]? = some call) (hphase : phase.resolved = call.phase.resolved)
    (id : ℕ) : (s.setPhase i call phase).resolvers id = s.resolvers id := by
  refine Pool.countP_set_of_eq hcall ?_
  dsimp only
  rw [hphase]

theorem ResolvedOnce.setPhase (h : ResolvedOnce s) (hcall : s.calls[i]? = some call)
    (hphase : phase.resolved = call.phase.resolved) : ResolvedOnce (s.setPhase i call phase) where
  keys := h.keys
  one := fun f hf => (resolvers_setPhase hcall hphase f.feedbackId).trans (h.one f hf)
  none := fun id hid => (resolvers_setPhase hcall hphase id).trans (h.none id hid)

/-- A new call has resolved nothing. -/
theorem ResolvedOnce.resolve (h : ResolvedOnce s) (feedbackId : ℕ) (args : Resolution)
    (outcome : ResolutionOutcome) :
    ResolvedOnce { s with calls := s.calls ++ [⟨feedbackId, args, .selecting outcome⟩] } := by
  have hcount : ∀ id, ResolveState.resolvers
      { s with calls := s.calls ++ [⟨feedbackId, args, .selecting outcome⟩] } id = s.resolvers id := by
    intro id
    unfold ResolveState.resolvers
    rw [List.countP_append]
    simp [ResolvePhase.resolved]
  exact ⟨h.keys, fun f hf => (hcount _).trans (h.one f hf), fun id hid => (hcount id).trans (h.none id hid)⟩

/-- A new flag has a fresh id, which no call resolved. -/
theorem ResolvedOnce.flag (h : ResolvedOnce s) (sessionId turnId : String) (t : AuditedTurn)
    (reporter category note now : String) :
    ResolvedOnce { s with flags := s.flags ++ [newFlag s.flags sessionId turnId t reporter category note now] } where
  keys := nodup_append_newFlag h.keys
  one := by
    intro f hf
    obtain hmem | hnew := List.mem_append.mp hf
    · exact h.one f hmem
    · rw [List.mem_singleton] at hnew
      subst hnew
      exact h.none _ (nextFeedbackId_fresh s.flags)
  none := by
    intro id hid
    refine h.none id fun hmem => hid ?_
    rw [List.map_append]
    exact List.mem_append_left _ hmem

/-- A withdrawn flag was open, so no call resolved it. -/
theorem ResolvedOnce.withdraw (h : ResolvedOnce s) (sessionId turnId reporter : String) :
    ResolvedOnce { s with flags := withdrawOpenFlags s.flags sessionId turnId reporter } where
  keys := nodup_withdrawOpenFlags h.keys
  one := fun f hf => h.one f (mem_withdrawOpenFlags.mp hf).1
  none := by
    intro id hid
    by_cases hmem : id ∈ s.flags.map (·.feedbackId)
    · -- the row is gone, so it was open
      obtain ⟨f, hf, rfl⟩ := List.mem_map.mp hmem
      have hopen : f.status = .opened := by
        by_contra hne
        refine hid (List.mem_map_of_mem (mem_withdrawOpenFlags.mpr ⟨hf, ?_⟩))
        simp [openFlagOf, hne]
      exact (h.one f hf).trans (if_neg (by rw [hopen]; exact nofun))
    · exact h.none id hmem

/-- A step that is no update overwrites nothing. -/
theorem keepsResolution_of_not_update (h : ResolvedOnce s) {l : ResolveStep} (hl : ∀ i now, l ≠ .update i now) :
    KeepsResolution repr s l := by
  intro s' hstep
  cases l with
  | flag sessionId turnId t reporter category note now =>
    rw [resolveStep] at hstep
    split at hstep
    · cases hstep
      exact ⟨h.flag sessionId turnId t reporter category note now, fun f hf _ => List.mem_append_left _ hf⟩
    · cases hstep
      exact ⟨h, fun f hf _ => hf⟩
  | withdraw sessionId turnId reporter =>
    cases hstep
    refine ⟨h.withdraw sessionId turnId reporter, fun f hf hresolved => ?_⟩
    refine mem_withdrawOpenFlags.mpr ⟨hf, ?_⟩
    simp [openFlagOf, hresolved]
  | resolve feedbackId args =>
    rw [resolveStep] at hstep
    split at hstep
    · rename_i outcome _
      cases hstep
      exact ⟨h.resolve feedbackId args outcome, fun f hf _ => hf⟩
    · cases hstep
      exact ⟨h, fun f hf _ => hf⟩
  | select i =>
    rw [resolveStep] at hstep
    split at hstep
    · rename_i call hcall
      split at hstep
      · rename_i outcome hphase
        have hfalse : call.phase.resolved = false := by rw [hphase]; rfl
        split at hstep <;> · cases hstep; exact ⟨h.setPhase hcall hfalse.symm, fun f hf _ => hf⟩
      · cases hstep
    · cases hstep
  | update i now => exact absurd rfl (hl i now)
  | read i =>
    rw [resolveStep] at hstep
    split at hstep
    · rename_i call hcall
      split at hstep
      · rename_i resolved hphase
        have hsame : call.phase.resolved = resolved := by rw [hphase]; rfl
        split at hstep <;> · cases hstep; exact ⟨h.setPhase hcall hsame.symm, fun f hf _ => hf⟩
      · cases hstep
    · cases hstep
  | fail i =>
    rw [resolveStep] at hstep
    split at hstep
    · rename_i call hcall
      split at hstep
      · rename_i outcome hphase
        cases hstep
        exact ⟨h.setPhase hcall (by rw [hphase]; rfl), fun f hf _ => hf⟩
      · rename_i outcome hphase
        cases hstep
        exact ⟨h.setPhase hcall (by rw [hphase]; rfl), fun f hf _ => hf⟩
      · rename_i resolved hphase
        cases hstep
        exact ⟨h.setPhase hcall (by rw [hphase]; rfl), fun f hf _ => hf⟩
      · cases hstep
    · cases hstep

/-! ## The update -/

/-- The update wrote a row of the id. -/
def ResolveState.hits (s : ResolveState) (feedbackId : ℕ) : Bool :=
  s.flags.any fun f => f.feedbackId = feedbackId

/-- The state an update leaves. -/
def ResolveState.afterUpdate (s : ResolveState) (i : ℕ) (call : ResolveCall) (outcome : ResolutionOutcome)
    (now : String) : ResolveState :=
  ResolveState.setPhase { s with flags := resolveFlag s.flags call.feedbackId call.args outcome now }
    i call (.reading (s.hits call.feedbackId))

theorem resolveStep_update (repr : String → String) {outcome : ResolutionOutcome}
    (hcall : s.calls[i]? = some call) (hphase : call.phase = .updating outcome) (now : String) :
    resolveStep repr s (.update i now) = some (s.afterUpdate i call outcome now) := by
  rw [resolveStep, hcall]
  dsimp only
  rw [hphase]
  rfl

theorem hits_iff {id : ℕ} : s.hits id = true ↔ ∃ f ∈ s.flags, f.feedbackId = id := by
  simp [ResolveState.hits]

/-- An update that finds a row is one more resolution of its flag, and of no other. -/
theorem resolvers_afterUpdate {outcome : ResolutionOutcome} (hcall : s.calls[i]? = some call)
    (hphase : call.phase = .updating outcome) (now : String) (id : ℕ) :
    (s.afterUpdate i call outcome now).resolvers id =
      s.resolvers id + if call.feedbackId = id ∧ s.hits id = true then 1 else 0 := by
  have hset := Pool.countP_set (p := fun c : ResolveCall => c.feedbackId = id ∧ c.phase.resolved)
    (b := { call with phase := .reading (s.hits call.feedbackId) }) hcall
  have hbefore : decide (call.feedbackId = id ∧ call.phase.resolved = true) = false := by
    simp [hphase, ResolvePhase.resolved]
  have hafter : decide (call.feedbackId = id ∧ (ResolvePhase.reading (s.hits call.feedbackId)).resolved = true)
      = decide (call.feedbackId = id ∧ s.hits id = true) := by
    refine decide_eq_decide.mpr (and_congr_right fun heq => ?_)
    rw [heq]
    rfl
  rw [hbefore, hafter, if_neg Bool.false_ne_true, Nat.add_zero] at hset
  simp only [decide_eq_true_eq] at hset
  exact hset

/-- **An update** of a flag that is still open keeps one call for each resolved flag. -/
theorem ResolvedOnce.update {outcome : ResolutionOutcome} (h : ResolvedOnce s)
    (hcall : s.calls[i]? = some call) (hphase : call.phase = .updating outcome) (now : String)
    (hopen : ∀ f ∈ s.flags, f.feedbackId = call.feedbackId → f.status = .opened) :
    ResolvedOnce (s.afterUpdate i call outcome now) := by
  have hkeys : (s.afterUpdate i call outcome now).flags.map (·.feedbackId) = s.flags.map (·.feedbackId) :=
    map_feedbackId_resolveFlag
  refine ⟨hkeys ▸ h.keys, fun f' hf' => ?_, fun id hid => ?_⟩
  · obtain ⟨f, hf, rfl⟩ := List.mem_map.mp hf'
    split
    · -- the flag the update is about: open and unresolved until now
      rename_i heq
      have hnone : s.resolvers f.feedbackId = 0 :=
        (h.one f hf).trans (if_neg (by rw [hopen f hf heq]; exact nofun))
      show (s.afterUpdate i call outcome now).resolvers f.feedbackId = 1
      rw [resolvers_afterUpdate hcall hphase, hnone, if_pos ⟨heq.symm, hits_iff.mpr ⟨f, hf, rfl⟩⟩]
    · rename_i hne
      rw [resolvers_afterUpdate hcall hphase, if_neg fun h => hne h.1.symm]
      exact h.one f hf
  · rw [hkeys] at hid
    rw [resolvers_afterUpdate hcall hphase, h.none id hid, if_neg]
    rintro ⟨-, hhit⟩
    obtain ⟨f, hf, rfl⟩ := hits_iff.mp hhit
    exact hid (List.mem_map_of_mem hf)

/-- An update of a resolved flag makes a second call of it. -/
theorem resolvedOnce_afterUpdate_iff {outcome : ResolutionOutcome} (h : ResolvedOnce s)
    (hcall : s.calls[i]? = some call) (hphase : call.phase = .updating outcome) (now : String) :
    ResolvedOnce (s.afterUpdate i call outcome now) ↔
      ∀ f ∈ s.flags, f.feedbackId = call.feedbackId → f.status = .opened := by
  constructor
  · intro hafter f hf heq
    by_contra hne
    -- the flag has its one call already, and the update makes a second
    have hstatus : f.status = .resolved := by
      cases hs : f.status with
      | opened => exact absurd hs hne
      | resolved => rfl
    have hmem : f.resolve call.args outcome now ∈ (s.afterUpdate i call outcome now).flags :=
      List.mem_map.mpr ⟨f, hf, if_pos heq⟩
    have hone : (s.afterUpdate i call outcome now).resolvers f.feedbackId = 1 := hafter.one _ hmem
    rw [resolvers_afterUpdate hcall hphase, if_pos ⟨heq.symm, hits_iff.mpr ⟨f, hf, rfl⟩⟩, h.one f hf,
      if_pos hstatus] at hone
    omega
  · exact h.update hcall hphase now

/-- **One step.** -/
theorem keepsResolution_step_iff (h : ResolvedOnce s) (l : ResolveStep) :
    KeepsResolution repr s l ↔ StillOpen s l := by
  by_cases hl : ∃ i now call outcome, l = .update i now ∧ s.calls[i]? = some call ∧
      call.phase = .updating outcome
  · obtain ⟨i, now, call, outcome, rfl, hcall, hphase⟩ := hl
    have hstep := resolveStep_update repr hcall hphase now
    constructor
    · rintro hkeeps j now' call' outcome' heq hcall' hphase'
      cases heq
      obtain rfl : call = call' := Option.some_inj.mp (hcall.symm.trans hcall')
      exact (resolvedOnce_afterUpdate_iff h hcall hphase now).mp (hkeeps _ hstep).1
    · intro hopen s' hs'
      obtain rfl := Option.some_inj.mp (hstep.symm.trans hs')
      have hflag := hopen i now call outcome rfl hcall hphase
      -- a resolved flag is not the one that is updated
      refine ⟨h.update hcall hphase now hflag, fun f hf hresolved => mem_resolveFlag_of_ne hf fun heq => ?_⟩
      rw [hflag f hf heq] at hresolved
      cases hresolved
  · -- no update happens, so the condition asks for nothing
    refine iff_of_true ?_ fun i now call outcome heq hcall hphase =>
      absurd ⟨i, now, call, outcome, heq, hcall, hphase⟩ hl
    by_cases hupdate : ∃ i now, l = .update i now
    · obtain ⟨i, now, rfl⟩ := hupdate
      intro s' hs'
      rw [resolveStep] at hs'
      split at hs'
      · rename_i call hcall
        split at hs'
        · rename_i outcome hphase
          exact absurd ⟨i, now, call, outcome, rfl, hcall, hphase⟩ hl
        · cases hs'
      · cases hs'
    · exact keepsResolution_of_not_update h fun i now heq => hupdate ⟨i, now, heq⟩

theorem resolvedOnce_init : ResolvedOnce ⟨[], []⟩ where
  keys := List.nodup_nil
  one := fun _ hf => absurd hf List.not_mem_nil
  none := fun _ _ => List.countP_nil

/-- **The runs that resolve every flag at most once, and never overwrite a resolution**, are those in which
every update finds its flag still open. -/
theorem keepsResolution_iff (repr : String → String) (steps : List ResolveStep) (s : ResolveState) :
    RunWhere (resolveStep repr) (KeepsResolution repr) ⟨[], []⟩ steps s ↔
      RunWhere (resolveStep repr) StillOpen ⟨[], []⟩ steps s := by
  refine RunWhere.congr_of_kept (I := ResolvedOnce) resolvedOnce_init ?_ ?_
  · exact fun _ _ s' _ hkeeps hstep => (hkeeps s' hstep).1
  · exact fun _ l hI => keepsResolution_step_iff hI l

/-! ## One call alone -/

/-- **A call nothing comes between** is `resolve_feedback`: its statements leave the table `resolveFeedback`
computes, and the call returns. -/
theorem resolveFeedback_alone {flags : List Flag} {feedbackId : ℕ} {args : Resolution} {now : String}
    (h : resolveFeedback repr s.flags feedbackId args now = .ok flags) :
    run (resolveStep repr) s [.resolve feedbackId args, .select s.calls.length, .update s.calls.length now,
      .read s.calls.length] = some ⟨flags, s.calls ++ [⟨feedbackId, args, .returned true⟩]⟩ := by
  unfold resolveFeedback at h
  split at h
  · cases h
  · rename_i outcome hargs
    split at h
    · cases h
    · rename_i hopen
      cases h
      -- the flag is there: the select found it
      have hhit : ∃ f ∈ s.flags, f.feedbackId = feedbackId := by
        unfold openCheck at hopen
        split at hopen
        · cases hopen
        · rename_i f hf
          exact ⟨f, List.mem_of_find?_eq_some hf, by simpa using List.find?_some hf⟩
      have hkept : ∃ f ∈ resolveFlag s.flags feedbackId args outcome now, f.feedbackId = feedbackId := by
        rw [← List.mem_map (f := fun f : Flag => f.feedbackId), map_feedbackId_resolveFlag]
        exact List.mem_map.mpr hhit
      simp [run, resolveStep, hargs, hopen, ResolveState.setPhase, hhit, hkept]

/-! ## Two resolutions overlap -/

/-- Two administrators triage one flag: both find it open, then one after the other updates. -/
def doubleResolve : List ResolveStep :=
  [.flag "s1" "t1" auditedTurn "analyst-1" "wrong_number" "" "t0",
    .resolve 1 ⟨"rule_fix", "admin-1", "fixed", some 7, none⟩,
    .resolve 1 ⟨"not_a_defect", "admin-2", "fine as it is", none, none⟩,
    .select 0, .select 1, .update 0 "now1", .update 1 "now2", .read 0, .read 1]

/-- **The second resolution overwrites the first**, and both calls return. -/
theorem doubleResolve_overwrites :
    (∃ s, run (resolveStep id) ⟨[], []⟩ doubleResolve = some s ∧
      s.flags.map (fun f => (f.feedbackId, f.resolutionOutcome, f.resolvedBy, f.resolutionNote))
        = [(1, some .notADefect, some "admin-2", some "fine as it is")] ∧
      s.calls.map (·.phase) = [.returned true, .returned true]) ∧
    ∀ s, ¬ RunWhere (resolveStep id) (KeepsResolution id) ⟨[], []⟩ doubleResolve s := by
  refine ⟨⟨_, rfl, by decide, by decide⟩, ?_⟩
  refine not_runWhere_of_run (I := fun s => s.resolvers 1 ≤ 1) rfl ?_ ?_ ?_
  · exact Nat.zero_le 1
  · intro s l s' _ hkeeps hstep
    have hone := (hkeeps s' hstep).1
    by_cases hmem : 1 ∈ s'.flags.map (·.feedbackId)
    · obtain ⟨f, hf, heq⟩ := List.mem_map.mp hmem
      have hcount := hone.one f hf
      rw [heq] at hcount
      split at hcount <;> omega
    · have hcount := hone.none 1 hmem
      omega
  · decide

end LocalSqlAgent
