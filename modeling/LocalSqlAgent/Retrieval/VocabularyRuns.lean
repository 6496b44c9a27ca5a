import LocalSqlAgent.Lib.Pool
import LocalSqlAgent.Retrieval.VocabularyRefresh
import Mathlib.Tactic.Linarith
import Mathlib.Tactic.NormNum

/-! # Runs of background refreshes

What each step of a trigger, its thread or a manual refresh leaves intact, and so what every run does whose
threads start in time.

* **`ends_of_inFlight`**: a background refresh in flight comes to its end by its own steps.
* **`TriggersWait`**: what the calls under way rest on: a trigger with the marker is past the back-off.
* **`refreshStep_keeps`**: every step in time keeps both.
* **`selfHealing_of_runWhere`**: every run in time is self-healing. -/

namespace LocalSqlAgent

/-! ## Calls that go on -/

section Proofs

variable {cached : VocabularyKey → Option (List String)} {s s' : VocabularyState} {i : ℕ} {a b : RefreshCall}

/-- A call that stays in flight, or stays out of it, changes no count. -/
theorem countP_inFlightFor_set (hcall : s.calls[i]? = some a) (hkey : b.key = a.key)
    (hflight : b.inFlight = a.inFlight) (k : VocabularyKey) :
    (s.calls.set i b).countP (RefreshCall.inFlightFor k) = s.calls.countP (RefreshCall.inFlightFor k) := by
  refine Pool.countP_set_of_eq hcall ?_
  rw [RefreshCall.inFlightFor_eq, RefreshCall.inFlightFor_eq, hkey, hflight]

/-- A call that comes into flight is one more of its key. -/
theorem countP_inFlightFor_take (hcall : s.calls[i]? = some a) (hkey : b.key = a.key)
    (ha : a.inFlight = false) (hb : b.inFlight = true) (k : VocabularyKey) :
    (s.calls.set i b).countP (RefreshCall.inFlightFor k) =
      s.calls.countP (RefreshCall.inFlightFor k) + if a.key = k then 1 else 0 := by
  have hset := Pool.countP_set (p := RefreshCall.inFlightFor k) (b := b) hcall
  simpa [RefreshCall.inFlightFor_eq, ha, hb, hkey] using hset

/-- A call that leaves it is one fewer. -/
theorem countP_inFlightFor_release (hcall : s.calls[i]? = some a) (ha : a.inFlight = true)
    (hb : b.inFlight = false) (k : VocabularyKey) :
    (s.calls.set i b).countP (RefreshCall.inFlightFor k) + (if a.key = k then 1 else 0) =
      s.calls.countP (RefreshCall.inFlightFor k) := by
  have hset := Pool.countP_set (p := RefreshCall.inFlightFor k) (b := b) hcall
  simpa [RefreshCall.inFlightFor_eq, ha, hb] using hset

/-- A call that keeps its success keeps its writes accounted for. -/
theorem written_set (hcall : s.calls[i]? = some a) (hkey : b.key = a.key)
    (hsucceeded : a.phase.succeeded = true → b.phase.succeeded = true) {w : VocabularyWrite}
    (h : ∃ call, s.calls[w.call]? = some call ∧ call.key = w.key ∧ call.phase.succeeded = true) :
    ∃ call, (s.calls.set i b)[w.call]? = some call ∧ call.key = w.key ∧ call.phase.succeeded = true := by
  obtain ⟨call, hw, hwkey, hok⟩ := h
  by_cases hi : i = w.call
  · subst hi
    obtain rfl := Option.some_inj.mp (hcall.symm.trans hw)
    obtain ⟨hlt, -⟩ := List.getElem?_eq_some_iff.mp hcall
    exact ⟨b, List.getElem?_set_self hlt, hkey.trans hwkey, hsucceeded hok⟩
  · exact ⟨call, (List.getElem?_set_ne hi).trans hw, hwkey, hok⟩

/-! ## Refreshes that come to their end -/

theorem VocabularyState.Ends.of_step {l : RefreshStep} (hl : l.call = some i)
    (hstep : refreshStep s l = some s') (h : s'.Ends i) : s.Ends i := by
  obtain ⟨ls, s'', hown, hrun, hover⟩ := h
  refine ⟨l :: ls, s'', ?_, ?_, hover⟩
  · intro l' hl'
    obtain rfl | hmem := List.mem_cons.mp hl'
    · exact hl
    · exact hown l' hmem
  · rw [run_cons, hstep, Option.bind_some, hrun]

/-- What a step puts in the place of a call is found there. -/
theorem getElem?_set_of_some (hcall : s.calls[i]? = some a) : (s.calls.set i b)[i]? = some b :=
  List.getElem?_set_self (List.getElem?_eq_some_iff.mp hcall).choose

theorem ends_of_recorded (succeeded : Bool) (hcall : s.calls[i]? = some a)
    (hphase : a.phase = .recorded succeeded) : s.Ends i := by
  have hstep : refreshStep s (.discard i) = some (s.release i a succeeded) := by
    change s.calls[i]?.bind _ = _
    rw [hcall, Option.bind_some, hphase]
  refine .of_step rfl hstep ⟨[], _, fun l hl => absurd hl List.not_mem_nil, rfl, ?_⟩
  exact ⟨_, getElem?_set_of_some hcall, rfl⟩

theorem ends_of_fetched (hcall : s.calls[i]? = some a) (hbackground : a.background = true)
    (hphase : a.phase = .fetched) : s.Ends i := by
  have hstep : refreshStep s (.record i "") =
      some ((s.markAttemptSucceeded a.key).setCall i (a.afterRecord true)) := by
    change s.calls[i]?.bind _ = _
    rw [hcall, Option.bind_some, hphase]
  refine .of_step rfl hstep (ends_of_recorded true (getElem?_set_of_some hcall) ?_)
  rw [RefreshCall.afterRecord_phase, hbackground]
  rfl

theorem ends_of_failed (hcall : s.calls[i]? = some a) (hbackground : a.background = true)
    (hphase : a.phase = .failed) : s.Ends i := by
  have hstep : refreshStep s (.record i "") =
      some ((s.markAttemptFailed a.key "").setCall i (a.afterRecord false)) := by
    change s.calls[i]?.bind _ = _
    rw [hcall, Option.bind_some, hphase]
  refine .of_step rfl hstep (ends_of_recorded false (getElem?_set_of_some hcall) ?_)
  rw [RefreshCall.afterRecord_phase, hbackground]
  rfl

theorem ends_of_fetching (hcall : s.calls[i]? = some a) (hbackground : a.background = true)
    (hphase : a.phase = .fetching) : s.Ends i := by
  have hstep : refreshStep s (.answer i (.error "")) = some (s.setCall i { a with phase := .failed }) := by
    change s.calls[i]?.bind _ = _
    rw [hcall, Option.bind_some, hphase]
    rfl
  exact .of_step rfl hstep (ends_of_failed (getElem?_set_of_some hcall) hbackground rfl)

theorem ends_of_taken (hcall : s.calls[i]? = some a) (hbackground : a.background = true)
    (hphase : a.phase = .taken) : s.Ends i := by
  have hstep : refreshStep s (.start i) = some (s.begin i a) := by
    change s.calls[i]?.bind _ = _
    rw [hcall, Option.bind_some, hphase]
  exact .of_step rfl hstep (ends_of_fetching (getElem?_set_of_some hcall) hbackground rfl)

/-- **A background refresh in flight comes to its end**: its next step is always enabled. -/
theorem ends_of_inFlight (hcall : s.calls[i]? = some a) (hflight : a.inFlight = true) : s.Ends i := by
  obtain ⟨hbackground, hrunning⟩ := Bool.and_eq_true_iff.mp hflight
  cases hphase : a.phase with
  | taken => exact ends_of_taken hcall hbackground hphase
  | fetching => exact ends_of_fetching hcall hbackground hphase
  | fetched => exact ends_of_fetched hcall hbackground hphase
  | failed => exact ends_of_failed hcall hbackground hphase
  | recorded succeeded => exact ends_of_recorded succeeded hcall hphase
  | _ =>
    rw [hphase] at hrunning
    cases hrunning

/-! ## What a step leaves intact -/

/-- A call that goes on outside the module's globals. -/
theorem SelfHealing.setCall (h : SelfHealing cached s) (hcall : s.calls[i]? = some a) (hkey : b.key = a.key)
    (hflight : b.inFlight = a.inFlight) (hremovals : b.removals = a.removals)
    (hfinished : b.finished = a.finished)
    (hsucceeded : a.phase.succeeded = true → b.phase.succeeded = true) (hquiet : b.phase ≠ .raised) :
    SelfHealing cached (s.setCall i b) where
  single := fun k => (countP_inFlightFor_set hcall hkey hflight k).trans (h.single k)
  removedOnce := by
    refine Pool.forall_mem_set h.removedOnce ?_
    rw [hremovals, hfinished]
    exact h.removedOnce a (List.mem_of_getElem? hcall)
  ends := fun _ _ => ends_of_inFlight
  newest := h.newest
  written := fun w hw => written_set hcall hkey hsucceeded (h.written w hw)
  monotonic := h.monotonic
  wallClock := h.wallClock
  backsOff := h.backsOff
  quiet := Pool.forall_mem_set h.quiet hquiet

/-- A new call has no marker and has written nothing. -/
theorem SelfHealing.append (h : SelfHealing cached s)
    (hflight : b.inFlight = false) (hremovals : b.removals = 0)
    (hfinished : b.finished = false) (hquiet : b.phase ≠ .raised) :
    SelfHealing cached { s with calls := s.calls ++ [b] } where
  single := by
    intro k
    have hnone : RefreshCall.inFlightFor k b = false := by
      rw [RefreshCall.inFlightFor_eq, hflight, Bool.false_and]
    rw [List.countP_append, List.countP_singleton, hnone]
    exact h.single k
  removedOnce := by
    intro call hmem
    obtain hold | hnew := List.mem_append.mp hmem
    · exact h.removedOnce call hold
    · obtain rfl := List.mem_singleton.mp hnew
      rw [hfinished]
      exact hremovals
  ends := fun _ _ => ends_of_inFlight
  newest := h.newest
  written := by
    intro w hw
    obtain ⟨call, hcall, hkept⟩ := h.written w hw
    obtain ⟨hlt, -⟩ := List.getElem?_eq_some_iff.mp hcall
    exact ⟨call, (List.getElem?_append_left hlt).trans hcall, hkept⟩
  monotonic := h.monotonic
  wallClock := h.wallClock
  backsOff := h.backsOff
  quiet := by
    intro call hmem
    obtain hold | hnew := List.mem_append.mp hmem
    · exact h.quiet call hold
    · obtain rfl := List.mem_singleton.mp hnew
      exact hquiet

/-- Time and the switch are no part of it. -/
theorem SelfHealing.setClock (h : SelfHealing cached s) (clock : ℚ) (enabled : Bool) :
    SelfHealing cached { s with clock := clock, enabled := enabled } :=
  ⟨h.single, h.removedOnce, fun _ _ => ends_of_inFlight, h.newest, h.written, h.monotonic, h.wallClock,
    h.backsOff, h.quiet⟩

/-- A start that keeps the back-off. -/
theorem SelfHealing.addStart (h : SelfHealing cached s) {start : RefreshStart} (hstart : start.BacksOff) :
    SelfHealing cached { s with starts := start :: s.starts } where
  single := h.single
  removedOnce := h.removedOnce
  ends := fun _ _ => ends_of_inFlight
  newest := h.newest
  written := h.written
  monotonic := h.monotonic
  wallClock := h.wallClock
  backsOff := by
    intro other hmem
    obtain rfl | hold := List.mem_cons.mp hmem
    · exact hstart
    · exact h.backsOff other hold
  quiet := h.quiet

/-- A recorded success clears both records. -/
theorem SelfHealing.markAttemptSucceeded (h : SelfHealing cached s) (key : VocabularyKey) :
    SelfHealing cached (s.markAttemptSucceeded key) where
  single := h.single
  removedOnce := h.removedOnce
  ends := fun _ _ => ends_of_inFlight
  newest := h.newest
  written := h.written
  monotonic := by
    intro k
    by_cases hk : k = key
    · subst hk
      simp [VocabularyState.markAttemptSucceeded, Finish.failedAt]
    · simpa [VocabularyState.markAttemptSucceeded, hk] using h.monotonic k
  wallClock := by
    intro k
    by_cases hk : k = key
    · subst hk
      simp [VocabularyState.markAttemptSucceeded]
    · simpa [VocabularyState.markAttemptSucceeded, hk] using h.wallClock k
  backsOff := h.backsOff
  quiet := h.quiet

/-- A recorded failure sets both. -/
theorem SelfHealing.markAttemptFailed (h : SelfHealing cached s) (key : VocabularyKey) (wall : String) :
    SelfHealing cached (s.markAttemptFailed key wall) where
  single := h.single
  removedOnce := h.removedOnce
  ends := fun _ _ => ends_of_inFlight
  newest := h.newest
  written := h.written
  monotonic := by
    intro k
    by_cases hk : k = key
    · subst hk
      simp [VocabularyState.markAttemptFailed, Finish.failedAt]
    · simpa [VocabularyState.markAttemptFailed, hk] using h.monotonic k
  wallClock := by
    intro k
    by_cases hk : k = key
    · subst hk
      simp [VocabularyState.markAttemptFailed]
    · simpa [VocabularyState.markAttemptFailed, hk] using h.wallClock k
  backsOff := h.backsOff
  quiet := h.quiet

/-- **Taking the marker**, which is free: the trigger is the only one of its key in flight. -/
theorem SelfHealing.admitCall (h : SelfHealing cached s) (hcall : s.calls[i]? = some a)
    (hbackground : a.background = true) {now : ℚ} (hphase : a.phase = .checking now)
    (hfree : s.inFlight a.key = false) (hstart : RefreshStart.BacksOff ⟨s.clock, s.lastFinish a.key⟩) :
    SelfHealing cached (s.admitCall i a) where
  single := by
    intro k
    have hcount := countP_inFlightFor_take (b := { a with phase := .taken }) hcall rfl
      (by rw [RefreshCall.inFlight_eq, hphase, hbackground]; rfl) (by rw [RefreshCall.inFlight_eq, hbackground]; rfl) k
    have hsingle := h.single k
    by_cases hk : a.key = k
    · subst hk
      rw [hfree, if_neg Bool.false_ne_true] at hsingle
      simp only [VocabularyState.admitCall, Function.update_self, if_true]
      rw [hcount, hsingle, if_pos rfl]
    · simp only [VocabularyState.admitCall, Function.update_of_ne (Ne.symm hk)]
      rw [hcount, if_neg hk, hsingle, Nat.add_zero]
  removedOnce := by
    refine Pool.forall_mem_set h.removedOnce ?_
    have hbefore := h.removedOnce a (List.mem_of_getElem? hcall)
    rw [RefreshCall.finished_eq, hphase] at hbefore
    exact hbefore
  ends := fun _ _ => ends_of_inFlight
  newest := h.newest
  written := fun w hw => written_set (b := { a with phase := .taken }) hcall rfl
    (by rw [hphase]; exact id) (h.written w hw)
  monotonic := h.monotonic
  wallClock := h.wallClock
  backsOff := (h.addStart hstart).backsOff
  quiet := Pool.forall_mem_set h.quiet (by simp)

/-- **Removing the marker** the call has had: none of its key is left in flight. -/
theorem SelfHealing.release (h : SelfHealing cached s) (hcall : s.calls[i]? = some a)
    (hbackground : a.background = true) {succeeded : Bool} (hphase : a.phase = .recorded succeeded) :
    SelfHealing cached (s.release i a succeeded) where
  single := by
    intro k
    have hflight : a.inFlight = true := by rw [RefreshCall.inFlight_eq, hphase, hbackground]; rfl
    have hcount := countP_inFlightFor_release
      (b := { a with phase := .ended succeeded, removals := a.removals + 1 }) hcall hflight
      (by rw [RefreshCall.inFlight_eq, hbackground]; rfl) k
    have hsingle := h.single k
    by_cases hk : a.key = k
    · subst hk
      simp only [VocabularyState.release, Function.update_self, Bool.false_eq_true, if_false]
      rw [if_pos rfl] at hcount
      -- the call itself was counted, so the marker was there
      split at hsingle <;> omega
    · simp only [VocabularyState.release, Function.update_of_ne (Ne.symm hk)]
      rw [if_neg hk, Nat.add_zero] at hcount
      rw [hcount, hsingle]
  removedOnce := by
    refine Pool.forall_mem_set h.removedOnce ?_
    have hbefore := h.removedOnce a (List.mem_of_getElem? hcall)
    simp only [RefreshCall.finished, hphase, hbackground, RefreshPhase.hasEnded, Bool.and_false,
      Bool.false_eq_true, if_false] at hbefore
    simp only [RefreshCall.finished, hbackground, hbefore, RefreshPhase.hasEnded]
    rfl
  ends := fun _ _ => ends_of_inFlight
  newest := h.newest
  written := fun w hw => written_set
    (b := { a with phase := .ended succeeded, removals := a.removals + 1 }) hcall rfl
    (by rw [hphase]; cases succeeded <;> exact id) (h.written w hw)
  monotonic := h.monotonic
  wallClock := h.wallClock
  backsOff := h.backsOff
  quiet := Pool.forall_mem_set h.quiet (by simp)

/-- **Caching values**: the newest write, of an attempt that has just succeeded. -/
theorem SelfHealing.wrote (h : SelfHealing cached s) (hcall : s.calls[i]? = some a)
    (hphase : a.phase = .fetching) (values : List String) :
    SelfHealing cached (s.wrote i a values (Function.update s.cache a.key (some values))) where
  single := fun k => (countP_inFlightFor_set (b := { a with phase := .fetched }) hcall rfl
    (by rw [RefreshCall.inFlight_eq, RefreshCall.inFlight_eq, hphase]; rfl) k).trans (h.single k)
  removedOnce := by
    refine Pool.forall_mem_set h.removedOnce ?_
    have hbefore := h.removedOnce a (List.mem_of_getElem? hcall)
    rw [RefreshCall.finished_eq, hphase] at hbefore
    exact hbefore
  ends := fun _ _ => ends_of_inFlight
  newest := by
    intro k
    by_cases hk : a.key = k
    · subst hk
      simp [VocabularyState.wrote]
    · simp only [VocabularyState.wrote, Function.update_of_ne (Ne.symm hk)]
      rw [List.find?_cons_of_neg (by simpa using hk)]
      exact h.newest k
  written := by
    intro w hw
    obtain rfl | hold := List.mem_cons.mp hw
    · exact ⟨_, getElem?_set_of_some hcall, rfl, rfl⟩
    · exact written_set (b := { a with phase := .fetched }) hcall rfl (fun _ => rfl) (h.written w hold)
  monotonic := h.monotonic
  wallClock := h.wallClock
  backsOff := h.backsOff
  quiet := Pool.forall_mem_set h.quiet (by simp)

/-! ## Triggers between their marker and their thread -/

/-- The phases a manual refresh goes through. -/
def RefreshPhase.byHand : RefreshPhase → Bool
  | fetching | fetched | failed | ended _ => true
  | _ => false

/-- What the calls under way rest on. -/
structure TriggersWait (s : VocabularyState) : Prop where
  /-- Only triggers take markers and start threads. -/
  byHand : ∀ call ∈ s.calls, call.background = false → call.phase.byHand = true
  /-- The clock a trigger has read is not ahead. -/
  read : ∀ call ∈ s.calls, ∀ now, call.phase = .checking now → now ≤ s.clock
  /-- A trigger with the marker is past the back-off, also when its thread is still to start. -/
  waited : ∀ call ∈ s.calls, call.phase = .taken → ∀ failure, s.lastFailure call.key = some failure →
    backgroundRefreshBackoffSeconds ≤ s.clock - failure

theorem TriggersWait.background (h : TriggersWait s) (hcall : s.calls[i]? = some a)
    (hphase : a.phase.byHand = false) : a.background = true := by
  by_contra hnot
  rw [h.byHand a (List.mem_of_getElem? hcall) (Bool.not_eq_true _ ▸ hnot)] at hphase
  cases hphase

theorem TriggersWait.setCall (h : TriggersWait s) (hbyHand : b.background = false → b.phase.byHand = true)
    (hread : ∀ now, b.phase ≠ .checking now)
    (hwaited : b.phase = .taken → ∀ failure, s.lastFailure b.key = some failure →
      backgroundRefreshBackoffSeconds ≤ s.clock - failure) : TriggersWait (s.setCall i b) where
  byHand := Pool.forall_mem_set h.byHand hbyHand
  read := Pool.forall_mem_set h.read fun now hnow => absurd hnow (hread now)
  waited := Pool.forall_mem_set h.waited hwaited

theorem TriggersWait.append (h : TriggersWait s) (hbyHand : b.background = false → b.phase.byHand = true)
    (hread : ∀ now, b.phase = .checking now → now ≤ s.clock) (htaken : b.phase ≠ .taken) :
    TriggersWait { s with calls := s.calls ++ [b] } := by
  refine ⟨?_, ?_, ?_⟩ <;> intro call hmem <;> obtain hold | hnew := List.mem_append.mp hmem
  · exact h.byHand call hold
  · obtain rfl := List.mem_singleton.mp hnew
    exact hbyHand
  · exact h.read call hold
  · obtain rfl := List.mem_singleton.mp hnew
    exact hread
  · exact h.waited call hold
  · obtain rfl := List.mem_singleton.mp hnew
    exact fun heq => absurd heq htaken

theorem TriggersWait.tick (h : TriggersWait s) {elapsed : ℚ} (hnonneg : 0 ≤ elapsed) :
    TriggersWait { s with clock := s.clock + elapsed } where
  byHand := h.byHand
  read := by
    intro call hmem now hnow
    have := h.read call hmem now hnow
    dsimp only
    linarith
  waited := by
    intro call hmem htaken failure hfailure
    have := h.waited call hmem htaken failure hfailure
    dsimp only
    linarith

/-- A recorded success leaves nothing to wait for. -/
theorem TriggersWait.markAttemptSucceeded (h : TriggersWait s) (key : VocabularyKey) :
    TriggersWait (s.markAttemptSucceeded key) where
  byHand := h.byHand
  read := h.read
  waited := by
    intro call hmem htaken failure hfailure
    refine h.waited call hmem htaken failure ?_
    by_cases hk : call.key = key
    · rw [VocabularyState.markAttemptSucceeded_lastFailure, hk, Function.update_self] at hfailure
      cases hfailure
    · rwa [VocabularyState.markAttemptSucceeded_lastFailure, Function.update_of_ne hk] at hfailure

/-- A recorded failure of another key concerns no trigger with the marker. -/
theorem TriggersWait.markAttemptFailed (h : TriggersWait s) {key : VocabularyKey}
    (hother : ∀ call ∈ s.calls, call.phase = .taken → call.key ≠ key) (wall : String) :
    TriggersWait (s.markAttemptFailed key wall) where
  byHand := h.byHand
  read := h.read
  waited := by
    intro call hmem htaken failure hfailure
    refine h.waited call hmem htaken failure ?_
    rwa [VocabularyState.markAttemptFailed_lastFailure,
      Function.update_of_ne (hother call hmem htaken)] at hfailure

/-! ## The trigger's critical section -/

/-- **What the critical section admits**: a key without a marker, past the back-off of its last failure. -/
theorem check_cases (hstep : refreshStep s (.check i) = some s') :
    ∃ call now, s.calls[i]? = some call ∧ call.phase = .checking now ∧
      (s' = s.setCall i { call with phase := .refused } ∨
        (s.inFlight call.key = false ∧ s' = s.admitCall i call ∧
          ∀ last, s.lastFailure call.key = some last → backgroundRefreshBackoffSeconds ≤ now - last)) := by
  obtain ⟨call, hcall, hstep⟩ := Option.bind_eq_some_iff.mp hstep
  split at hstep
  · rename_i now hphase
    refine ⟨call, now, hcall, hphase, ?_⟩
    split at hstep
    · exact .inl (Option.some_inj.mp hstep).symm
    · rename_i hfree
      split at hstep
      · exact .inl (Option.some_inj.mp hstep).symm
      · rename_i hlate
        refine .inr ⟨Bool.not_eq_true _ ▸ hfree, (Option.some_inj.mp hstep).symm, fun last hlast => ?_⟩
        rw [hlast] at hlate
        simpa using hlate
  · cases hstep

/-- A start keeps the back-off when the monotonic record is old enough. -/
theorem SelfHealing.backsOff_of_lastFailure (h : SelfHealing cached s) {key : VocabularyKey}
    (hlate : ∀ last, s.lastFailure key = some last → backgroundRefreshBackoffSeconds ≤ s.clock - last) :
    RefreshStart.BacksOff ⟨s.clock, s.lastFinish key⟩ := by
  intro failure hfailure
  refine hlate failure ?_
  dsimp only at hfailure
  rw [h.monotonic key, hfailure]
  rfl

/-! ## Every step -/

theorem check_keeps (h : SelfHealing cached s) (hw : TriggersWait s)
    (hstep : refreshStep s (.check i) = some s') : SelfHealing cached s' ∧ TriggersWait s' := by
  obtain ⟨call, now, hcall, hphase, rfl | ⟨hfree, rfl, hlate⟩⟩ := check_cases hstep
  · have hbackground := hw.background hcall (by rw [hphase]; rfl)
    refine ⟨h.setCall hcall rfl ?_ rfl ?_ ?_ (by simp), hw.setCall ?_ (by simp) (by simp)⟩
    · rw [RefreshCall.inFlight_eq, RefreshCall.inFlight_eq, hphase]
      rfl
    · rw [RefreshCall.finished_eq, RefreshCall.finished_eq, hphase]
      rfl
    · rw [hphase]
      exact id
    · exact fun hnot => absurd (hbackground.symm.trans hnot) (by simp)
  · have hbackground := hw.background hcall (by rw [hphase]; rfl)
    have hread : now ≤ s.clock := hw.read call (List.mem_of_getElem? hcall) now hphase
    -- the clock was read before the lock, so the back-off is over at the marker all the more
    have hlate' : ∀ last, s.lastFailure call.key = some last →
        backgroundRefreshBackoffSeconds ≤ s.clock - last := by
      intro last hlast
      have := hlate last hlast
      linarith
    refine ⟨h.admitCall hcall hbackground hphase hfree (h.backsOff_of_lastFailure hlate'), ?_⟩
    exact ⟨Pool.forall_mem_set hw.byHand fun hnot => absurd (hbackground.symm.trans hnot) (by simp),
      Pool.forall_mem_set hw.read (by simp), Pool.forall_mem_set hw.waited fun _ => hlate'⟩

theorem start_keeps (h : SelfHealing cached s) (hw : TriggersWait s)
    (hstep : refreshStep s (.start i) = some s') : SelfHealing cached s' ∧ TriggersWait s' := by
  obtain ⟨call, hcall, hstep⟩ := Option.bind_eq_some_iff.mp hstep
  split at hstep
  · rename_i hphase
    cases hstep
    have hstart := h.backsOff_of_lastFailure (hw.waited call (List.mem_of_getElem? hcall) hphase)
    refine ⟨(h.addStart hstart).setCall (b := { call with phase := .fetching }) hcall rfl ?_ rfl ?_ ?_
      (by simp), ?_⟩
    · rw [RefreshCall.inFlight_eq, RefreshCall.inFlight_eq, hphase]
      rfl
    · rw [RefreshCall.finished_eq, RefreshCall.finished_eq, hphase]
      rfl
    · rw [hphase]
      exact fun hnot => absurd hnot Bool.false_ne_true
    · exact ⟨Pool.forall_mem_set hw.byHand fun _ => rfl, Pool.forall_mem_set hw.read (by simp),
        Pool.forall_mem_set hw.waited (by simp)⟩
  · cases hstep

theorem answer_keeps (h : SelfHealing cached s) (hw : TriggersWait s)
    {result : Except String (Option (List String))} (hstep : refreshStep s (.answer i result) = some s') :
    SelfHealing cached s' ∧ TriggersWait s' := by
  obtain ⟨call, hcall, hstep⟩ := Option.bind_eq_some_iff.mp hstep
  split at hstep
  · rename_i hphase
    cases result with
    | ok frame =>
      cases hstep
      exact ⟨h.wrote hcall hphase (frame.getD []), Pool.forall_mem_set hw.byHand fun _ => rfl,
        Pool.forall_mem_set hw.read (by simp), Pool.forall_mem_set hw.waited (by simp)⟩
    | error raised =>
      cases hstep
      refine ⟨h.setCall hcall rfl ?_ rfl ?_ ?_ (by simp), hw.setCall (fun _ => rfl) (by simp) (by simp)⟩
      · rw [RefreshCall.inFlight_eq, RefreshCall.inFlight_eq, hphase]
        rfl
      · rw [RefreshCall.finished_eq, RefreshCall.finished_eq, hphase]
        rfl
      · rw [hphase]
        exact fun hnot => absurd hnot Bool.false_ne_true
  · cases hstep

/-- What a call is after its record, by a thread or by hand. -/
theorem afterRecord_cases (call : RefreshCall) (succeeded : Bool) :
    (call.background = true ∧ (call.afterRecord succeeded).phase = .recorded succeeded) ∨
      (call.background = false ∧ (call.afterRecord succeeded).phase = .ended succeeded) := by
  cases hbackground : call.background
  · exact .inr ⟨rfl, by rw [RefreshCall.afterRecord_phase, hbackground]; rfl⟩
  · exact .inl ⟨rfl, by rw [RefreshCall.afterRecord_phase, hbackground]; rfl⟩

theorem afterRecord_inFlight (call : RefreshCall) (succeeded : Bool) :
    (call.afterRecord succeeded).inFlight = call.background := by
  obtain ⟨hbackground, hphase⟩ | ⟨hbackground, hphase⟩ := afterRecord_cases call succeeded
  all_goals
    rw [RefreshCall.inFlight_eq, hphase]
    change (call.background && _) = _
    rw [hbackground]
    rfl

theorem afterRecord_finished (call : RefreshCall) (succeeded : Bool) :
    (call.afterRecord succeeded).finished = false := by
  obtain ⟨hbackground, hphase⟩ | ⟨hbackground, hphase⟩ := afterRecord_cases call succeeded
  all_goals
    rw [RefreshCall.finished_eq, hphase]
    change (call.background && _) = _
    rw [hbackground]
    rfl

/-- The call recorded, once the records are written. -/
theorem SelfHealing.setRecorded (h : SelfHealing cached s) (hcall : s.calls[i]? = some a)
    (hrunning : a.phase.running = true) (hover : a.phase.hasEnded = false) {succeeded : Bool}
    (hsucceeded : a.phase.succeeded = true → succeeded = true) :
    SelfHealing cached (s.setCall i (a.afterRecord succeeded)) := by
  refine h.setCall hcall rfl ?_ rfl ?_ ?_ ?_
  · rw [afterRecord_inFlight, RefreshCall.inFlight_eq, hrunning, Bool.and_true]
  · rw [afterRecord_finished, RefreshCall.finished_eq, hover, Bool.and_false]
  · intro hok
    obtain rfl := hsucceeded hok
    obtain ⟨-, hphase⟩ | ⟨-, hphase⟩ := afterRecord_cases a true <;>
      · rw [hphase]
        rfl
  · obtain ⟨-, hphase⟩ | ⟨-, hphase⟩ := afterRecord_cases a succeeded <;>
      · rw [hphase]
        simp

theorem TriggersWait.setRecorded (h : TriggersWait s) (succeeded : Bool) :
    TriggersWait (s.setCall i (a.afterRecord succeeded)) := by
  obtain ⟨hbackground, hphase⟩ | ⟨-, hphase⟩ := afterRecord_cases a succeeded
  · refine h.setCall (fun hnot => absurd (hbackground.symm.trans hnot) (by simp)) ?_ ?_ <;>
      · rw [hphase]
        simp
  · refine h.setCall (fun _ => ?_) ?_ ?_ <;> rw [hphase]
    · rfl
    · simp
    · simp

/-- **A background failure leaves no trigger of its key waiting**: the call itself is the one in flight. -/
theorem SelfHealing.not_taken_of_failed (h : SelfHealing cached s) (hw : TriggersWait s)
    (hcall : s.calls[i]? = some a) (hbackground : a.background = true) (hphase : a.phase = .failed) :
    ∀ other ∈ s.calls, other.phase = .taken → other.key ≠ a.key := by
  intro other hmem htaken hkey
  have hone : s.calls.countP (RefreshCall.inFlightFor a.key) ≤ 1 := by
    rw [h.single a.key]
    split <;> omega
  have hself : RefreshCall.inFlightFor a.key a = true := by
    simp [RefreshCall.inFlightFor_eq, RefreshCall.inFlight_eq, hbackground, hphase, RefreshPhase.running]
  have hne : s.calls[i]? ≠ some other := by
    intro heq
    obtain rfl := Option.some_inj.mp (hcall.symm.trans heq)
    rw [hphase] at htaken
    cases htaken
  obtain rfl | ⟨-, hout⟩ :=
    Pool.others_of_countP_le_one (b := a) hone hcall hself other (Pool.mem_set_of_ne hmem hne a)
  · rw [hphase] at htaken
    cases htaken
  · obtain ⟨j, hj⟩ := List.mem_iff_getElem?.mp hmem
    have hother : other.background = true := hw.background hj (by rw [htaken]; rfl)
    simp [RefreshCall.inFlightFor_eq, RefreshCall.inFlight_eq, hother, htaken, RefreshPhase.running, hkey] at hout

theorem record_keeps (h : SelfHealing cached s) (hw : TriggersWait s) {wall : String}
    (hintime : StartsInTime s (.record i wall)) (hstep : refreshStep s (.record i wall) = some s') :
    SelfHealing cached s' ∧ TriggersWait s' := by
  obtain ⟨call, hcall, hstep⟩ := Option.bind_eq_some_iff.mp hstep
  split at hstep
  · rename_i hphase
    cases hstep
    refine ⟨(h.markAttemptSucceeded call.key).setRecorded hcall ?_ ?_ fun _ => rfl,
      (hw.markAttemptSucceeded call.key).setRecorded true⟩
    · rw [hphase]
      rfl
    · rw [hphase]
      rfl
  · rename_i hphase
    cases hstep
    have hother : ∀ other ∈ s.calls, other.phase = .taken → other.key ≠ call.key := by
      cases hbackground : call.background
      · exact hintime call (by simp [hcall]) hbackground hphase
      · exact h.not_taken_of_failed hw hcall hbackground hphase
    refine ⟨(h.markAttemptFailed call.key wall).setRecorded hcall ?_ ?_ ?_,
      (hw.markAttemptFailed hother wall).setRecorded false⟩
    · rw [hphase]
      rfl
    · rw [hphase]
      rfl
    · rw [hphase]
      exact fun hnot => absurd hnot Bool.false_ne_true
  · cases hstep

theorem discard_keeps (h : SelfHealing cached s) (hw : TriggersWait s)
    (hstep : refreshStep s (.discard i) = some s') : SelfHealing cached s' ∧ TriggersWait s' := by
  obtain ⟨call, hcall, hstep⟩ := Option.bind_eq_some_iff.mp hstep
  split at hstep
  · rename_i succeeded hphase
    cases hstep
    exact ⟨h.release hcall (hw.background hcall (by rw [hphase]; rfl)) hphase,
      Pool.forall_mem_set hw.byHand fun _ => rfl, Pool.forall_mem_set hw.read (by simp),
      Pool.forall_mem_set hw.waited (by simp)⟩
  · cases hstep

/-- **Every step in time** keeps the module self-healing. -/
theorem refreshStep_keeps (h : SelfHealing cached s) (hw : TriggersWait s) {l : RefreshStep}
    (hintime : StartsInTime s l) (hstep : refreshStep s l = some s') :
    SelfHealing cached s' ∧ TriggersWait s' := by
  cases l with
  | tick elapsed =>
    change (if 0 ≤ elapsed then _ else _) = some s' at hstep
    split at hstep
    · rename_i hnonneg
      cases hstep
      exact ⟨h.setClock _ _, hw.tick hnonneg⟩
    · cases hstep
  | enable on =>
    cases hstep
    exact ⟨h.setClock _ _, hw.byHand, hw.read, hw.waited⟩
  | trigger key =>
    change (if s.enabled then _ else _) = some s' at hstep
    split at hstep
    · cases hstep
      refine ⟨h.append rfl rfl rfl (by simp), hw.append (by simp) ?_ (by simp)⟩
      intro now hnow
      cases hnow
      exact le_rfl
    · cases hstep
      exact ⟨h, hw⟩
  | manual key =>
    cases hstep
    exact ⟨h.append rfl rfl rfl (by simp), hw.append (fun _ => rfl) (by simp) (by simp)⟩
  | check i => exact check_keeps h hw hstep
  | start i => exact start_keeps h hw hstep
  | startFails i => exact hintime.elim
  | answer i result => exact answer_keeps h hw hstep
  | record i wall => exact record_keeps h hw hintime hstep
  | discard i => exact discard_keeps h hw hstep

/-- The module as it is loaded is self-healing. -/
theorem selfHealing_startup (clock : ℚ) : SelfHealing cached (.startup clock cached) where
  single := fun _ => rfl
  removedOnce := fun _ hmem => absurd hmem List.not_mem_nil
  ends := fun _ _ => ends_of_inFlight
  newest := fun k => (Option.none_or (o := cached k)).symm
  written := fun _ hmem => absurd hmem List.not_mem_nil
  monotonic := fun _ => rfl
  wallClock := fun _ => rfl
  backsOff := fun _ hmem => absurd hmem List.not_mem_nil
  quiet := fun _ hmem => absurd hmem List.not_mem_nil

theorem triggersWait_startup (clock : ℚ) : TriggersWait (.startup clock cached) :=
  ⟨fun _ hmem => absurd hmem List.not_mem_nil, fun _ hmem => absurd hmem List.not_mem_nil,
    fun _ hmem => absurd hmem List.not_mem_nil⟩

/-! ## Runs -/

/-- **In every run whose threads start, and in time**, every state reached is self-healing. -/
theorem selfHealing_of_runWhere {clock : ℚ} {ls : List RefreshStep}
    (h : RunWhere refreshStep StartsInTime (.startup clock cached) ls s) : SelfHealing cached s :=
  (h.invariant (I := fun s => SelfHealing cached s ∧ TriggersWait s)
    ⟨selfHealing_startup clock, triggersWait_startup clock⟩
    fun _ _ _ hs hintime hstep => refreshStep_keeps hs.1 hs.2 hintime hstep).1

end Proofs

/-- A refresh that fails, a manual one that succeeds, and one more with a second trigger beside it. -/
theorem selfHealing_of_runWhere_down : ∃ s, SelfHealing (fun _ => none) s ∧
    s.cache ("Ring", "Name") = some ["Alpha", "Beta"] ∧ s.calls.map (·.phase) =
      [.ended false, .ended true, .ended true, .refused] := by
  obtain ⟨s, hrun, hkept⟩ : ∃ s, runWhere refreshStep StartsInTime (.startup 0 fun _ => none)
      [.trigger ("Ring", "Name"), .check 0, .start 0, .answer 0 (.error "login timeout"),
        .record 0 "2026-01-01T00:00:00", .discard 0, .tick 30, .manual ("Ring", "Name"),
        .answer 1 (.ok (some ["Alpha"])), .record 1 "2026-01-01T00:00:30", .trigger ("Ring", "Name"), .check 2,
        .trigger ("Ring", "Name"), .start 2, .check 3, .answer 2 (.ok (some ["Alpha", "Beta"])),
        .record 2 "2026-01-01T00:00:31", .discard 2] = some s ∧
      s.cache ("Ring", "Name") = some ["Alpha", "Beta"] ∧ s.calls.map (·.phase) =
        [.ended false, .ended true, .ended true, .refused] := by
    refine ⟨_, rfl, ?_, ?_⟩ <;> rfl
  exact ⟨s, selfHealing_of_runWhere (runWhere_sound hrun), hkept⟩

/-- **A thread that cannot be started**: the trigger raises, nothing is in flight, and the marker stays, so
that an hour later the key is still refused. **A manual refresh that fails in between**: the thread starts
within the back-off. -/
theorem thread_not_started :
    (∃ s, run refreshStep (.startup 0 fun _ => none)
        [.trigger ("Ring", "Name"), .check 0, .startFails 0, .tick 3600, .trigger ("Ring", "Name"), .check 1] =
          some s ∧
      s.calls.map (·.phase) = [.raised, .refused] ∧ s.inFlight ("Ring", "Name") = true ∧
      ¬ SelfHealing (fun _ => none) s) ∧
    ∃ s, run refreshStep (.startup 0 fun _ => none)
        [.trigger ("Ring", "Name"), .check 0, .manual ("Ring", "Name"), .answer 1 (.error "login timeout"),
          .record 1 "2026-01-01T00:00:00", .start 0] = some s ∧
      s.starts.map (·.last) = [some (.failed 0), none] ∧ ¬ SelfHealing (fun _ => none) s := by
  refine ⟨⟨_, rfl, rfl, rfl, fun h => ?_⟩, ⟨_, rfl, rfl, fun h => ?_⟩⟩
  · exact absurd (h.quiet ⟨("Ring", "Name"), true, .raised, 0⟩ (.head _)) (by decide)
  · have hlate := h.backsOff ⟨0, some (.failed 0)⟩ (.head _) 0 rfl
    norm_num [backgroundRefreshBackoffSeconds] at hlate

end LocalSqlAgent
