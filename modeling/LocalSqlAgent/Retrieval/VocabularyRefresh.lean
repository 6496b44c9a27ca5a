import LocalSqlAgent.Lib.Transition
import Mathlib.Algebra.Order.Ring.Rat
import Mathlib.Logic.Function.Basic

/-! # Background refreshes

`_trigger_background_refresh`, the thread it starts and `manual_refresh`, critical section by critical
section. A trigger reads the clock before it takes `_bg_lock`, takes the key's marker under it and starts
the thread after it; the thread fetches, records how the attempt ended, and removes the marker. Any number
of triggers, threads and manual refreshes may overlap.

* **`refreshStep`**: one step of one of them.
* **`SelfHealing`**: one refresh of a key in flight, with a marker that is removed once; values of
  successful attempts only; records of the last outcome; no start within the back-off; no trigger that
  raises.
* **`StartsInTime`**: no thread fails to start, and no manual refresh fails between a trigger's marker and
  its thread.

That every run of such steps is self-healing is `selfHealing_of_runWhere` in `VocabularyRuns`. -/

namespace LocalSqlAgent

/-! ## Calls -/

/-- `(table, column)`. -/
abbrev VocabularyKey := String × String

/-- `_BACKGROUND_REFRESH_BACKOFF_SECONDS`. -/
def backgroundRefreshBackoffSeconds : ℚ := 60

/-- How far a call has come. A manual refresh begins at `fetching` and ends with its record. -/
inductive RefreshPhase where
  /-- The trigger has read the clock; its critical section is to come. -/
  | checking (now : ℚ)
  /-- It returned without a refresh. -/
  | refused
  /-- It has the marker; the thread is to be started. -/
  | taken
  /-- Starting the thread raised, into the request. -/
  | raised
  /-- In `refresh_vocabulary`. -/
  | fetching
  /-- `refresh_vocabulary` returned. -/
  | fetched
  /-- `refresh_vocabulary` raised. -/
  | failed
  /-- The outcome is recorded; the marker is to be removed. -/
  | recorded (succeeded : Bool)
  /-- It is over. -/
  | ended (succeeded : Bool)
  deriving DecidableEq

namespace RefreshPhase

/-- A background refresh that has its marker still to remove. -/
def running : RefreshPhase → Bool
  | taken | fetching | fetched | failed | recorded _ => true
  | _ => false

/-- The attempt succeeded, as far as it has come. -/
def succeeded : RefreshPhase → Bool
  | fetched | recorded true | ended true => true
  | _ => false

/-- The attempt is over. -/
def hasEnded : RefreshPhase → Bool
  | ended _ => true
  | _ => false

end RefreshPhase

/-- A trigger with its thread, or a manual refresh. `removals` is bookkeeping for the proofs: how often it
removed the marker. -/
structure RefreshCall where
  key : VocabularyKey
  /-- A trigger and its thread. -/
  background : Bool
  phase : RefreshPhase
  removals : ℕ
  deriving DecidableEq

/-- A background refresh in flight. -/
def RefreshCall.inFlight (call : RefreshCall) : Bool := call.background && call.phase.running

/-- A background refresh of the key in flight. -/
def RefreshCall.inFlightFor (k : VocabularyKey) (call : RefreshCall) : Bool :=
  call.inFlight && decide (call.key = k)

/-- A background refresh that is over. -/
def RefreshCall.finished (call : RefreshCall) : Bool := call.background && call.phase.hasEnded

theorem RefreshCall.inFlight_eq (call : RefreshCall) :
    call.inFlight = (call.background && call.phase.running) := rfl

theorem RefreshCall.inFlightFor_eq (k : VocabularyKey) (call : RefreshCall) :
    call.inFlightFor k = (call.inFlight && decide (call.key = k)) := rfl

theorem RefreshCall.finished_eq (call : RefreshCall) :
    call.finished = (call.background && call.phase.hasEnded) := rfl

/-! ## The module's state -/

/-- How an attempt ended, and when. -/
inductive Finish where
  | succeeded
  | failed (time : ℚ)
  deriving DecidableEq

/-- When the attempt failed. -/
def Finish.failedAt : Finish → Option ℚ
  | succeeded => none
  | failed time => some time

/-- Values an attempt has cached. -/
structure VocabularyWrite where
  call : ℕ
  key : VocabularyKey
  values : List String
  deriving DecidableEq

/-- A background refresh that starts: when, and how the key's last finished attempt had ended. -/
structure RefreshStart where
  time : ℚ
  last : Option Finish
  deriving DecidableEq

/-- The start keeps the back-off after the key's last failure. -/
def RefreshStart.BacksOff (start : RefreshStart) : Prop :=
  ∀ failure, start.last = some (.failed failure) → backgroundRefreshBackoffSeconds ≤ start.time - failure

/-- The module's globals and its calls. The last three fields are bookkeeping for the proofs. -/
structure VocabularyState where
  /-- `time.monotonic()`. -/
  clock : ℚ
  /-- `_background_refresh_enabled`. -/
  enabled : Bool
  /-- `_cache`, its values. -/
  cache : VocabularyKey → Option (List String)
  /-- `_in_flight`. -/
  inFlight : VocabularyKey → Bool
  /-- `_last_failure`. -/
  lastFailure : VocabularyKey → Option ℚ
  /-- `_last_failure_at`. -/
  lastFailureAt : VocabularyKey → Option String
  /-- The calls, in the order they were made. -/
  calls : List RefreshCall
  /-- How the key's last finished attempt ended. -/
  lastFinish : VocabularyKey → Option Finish
  /-- The writes to the cache, newest first. -/
  writes : List VocabularyWrite
  /-- The background refreshes admitted and the threads started, newest first. -/
  starts : List RefreshStart

/-- What happens next. -/
inductive RefreshStep where
  /-- Time passes. -/
  | tick (elapsed : ℚ)
  /-- `set_background_refresh_enabled`. -/
  | enable (on : Bool)
  /-- A request triggers a refresh. -/
  | trigger (key : VocabularyKey)
  /-- An operator refreshes by hand. -/
  | manual (key : VocabularyKey)
  /-- The critical section of the trigger at an index. -/
  | check (i : ℕ)
  /-- Its thread starts. -/
  | start (i : ℕ)
  /-- Its thread cannot be started. -/
  | startFails (i : ℕ)
  /-- What the database answers the call at an index: the first column, `none` for no frame. -/
  | answer (i : ℕ) (result : Except String (Option (List String)))
  /-- The call at an index records how its attempt ended, at a wall-clock time. -/
  | record (i : ℕ) (wall : String)
  /-- The thread of the call at an index removes the marker. -/
  | discard (i : ℕ)

/-- The call that acts. -/
def RefreshStep.call : RefreshStep → Option ℕ
  | check i | start i | startFails i | answer i _ | record i _ | discard i => some i
  | _ => none

/-- `refresh_vocabulary`: the cache is written on success only. -/
def refreshVocabulary (key : VocabularyKey) (result : Except String (Option (List String)))
    (cache : VocabularyKey → Option (List String)) :
    Except String (List String) × (VocabularyKey → Option (List String)) :=
  match result with
  | .ok frame => (.ok (frame.getD []), Function.update cache key (some (frame.getD [])))
  | .error raised => (.error raised, cache)

namespace VocabularyState

variable (s : VocabularyState)

/-- `_mark_attempt_succeeded`. -/
def markAttemptSucceeded (key : VocabularyKey) : VocabularyState :=
  { s with
    lastFailure := Function.update s.lastFailure key none
    lastFailureAt := Function.update s.lastFailureAt key none
    lastFinish := Function.update s.lastFinish key (some .succeeded) }

/-- `_mark_attempt_failed`. -/
def markAttemptFailed (key : VocabularyKey) (wall : String) : VocabularyState :=
  { s with
    lastFailure := Function.update s.lastFailure key (some s.clock)
    lastFailureAt := Function.update s.lastFailureAt key (some wall)
    lastFinish := Function.update s.lastFinish key (some (.failed s.clock)) }

@[simp] theorem markAttemptSucceeded_lastFailure (key : VocabularyKey) :
    (s.markAttemptSucceeded key).lastFailure = Function.update s.lastFailure key none := rfl

@[simp] theorem markAttemptFailed_lastFailure (key : VocabularyKey) (wall : String) :
    (s.markAttemptFailed key wall).lastFailure = Function.update s.lastFailure key (some s.clock) := rfl

/-- The call at an index goes on. -/
def setCall (i : ℕ) (call : RefreshCall) : VocabularyState := { s with calls := s.calls.set i call }

/-- The trigger at an index takes the marker. -/
def admitCall (i : ℕ) (call : RefreshCall) : VocabularyState :=
  { s with
    inFlight := Function.update s.inFlight call.key true
    starts := ⟨s.clock, s.lastFinish call.key⟩ :: s.starts
    calls := s.calls.set i { call with phase := .taken } }

/-- The thread of the call at an index starts. -/
def begin (i : ℕ) (call : RefreshCall) : VocabularyState :=
  { s with
    starts := ⟨s.clock, s.lastFinish call.key⟩ :: s.starts
    calls := s.calls.set i { call with phase := .fetching } }

/-- The attempt of the call at an index has cached values. -/
def wrote (i : ℕ) (call : RefreshCall) (values : List String)
    (cache : VocabularyKey → Option (List String)) : VocabularyState :=
  { s with
    cache := cache
    writes := ⟨i, call.key, values⟩ :: s.writes
    calls := s.calls.set i { call with phase := .fetched } }

/-- The thread of the call at an index removes the marker. -/
def release (i : ℕ) (call : RefreshCall) (succeeded : Bool) : VocabularyState :=
  { s with
    inFlight := Function.update s.inFlight call.key false
    calls := s.calls.set i { call with phase := .ended succeeded, removals := call.removals + 1 } }

end VocabularyState

/-- What follows the record: the thread goes on to `finally`, a manual refresh returns. -/
def RefreshCall.afterRecord (call : RefreshCall) (succeeded : Bool) : RefreshCall :=
  { call with phase := if call.background then .recorded succeeded else .ended succeeded }

theorem RefreshCall.afterRecord_phase (call : RefreshCall) (succeeded : Bool) :
    (call.afterRecord succeeded).phase = if call.background then .recorded succeeded else .ended succeeded := rfl

/-- **One step.** -/
def refreshStep (s : VocabularyState) : RefreshStep → Option VocabularyState
  | .tick elapsed => if 0 ≤ elapsed then some { s with clock := s.clock + elapsed } else none
  | .enable on => some { s with enabled := on }
  | .trigger key =>
    if s.enabled then some { s with calls := s.calls ++ [⟨key, true, .checking s.clock, 0⟩] } else some s
  | .manual key => some { s with calls := s.calls ++ [⟨key, false, .fetching, 0⟩] }
  | .check i => s.calls[i]?.bind fun call =>
    match call.phase with
    | .checking now =>
      if s.inFlight call.key then some (s.setCall i { call with phase := .refused })
      else if (s.lastFailure call.key).any fun last => now - last < backgroundRefreshBackoffSeconds then
        some (s.setCall i { call with phase := .refused })
      else some (s.admitCall i call)
    | _ => none
  | .start i => s.calls[i]?.bind fun call =>
    match call.phase with
    | .taken => some (s.begin i call)
    | _ => none
  | .startFails i => s.calls[i]?.bind fun call =>
    match call.phase with
    -- outside the lock and outside any handler: the marker stays
    | .taken => some (s.setCall i { call with phase := .raised })
    | _ => none
  | .answer i result => s.calls[i]?.bind fun call =>
    match call.phase with
    | .fetching =>
      match refreshVocabulary call.key result s.cache with
      | (.ok values, cache) => some (s.wrote i call values cache)
      | (.error _, cache) => some ({ s with cache := cache }.setCall i { call with phase := .failed })
    | _ => none
  | .record i wall => s.calls[i]?.bind fun call =>
    match call.phase with
    | .fetched => some ((s.markAttemptSucceeded call.key).setCall i (call.afterRecord true))
    | .failed => some ((s.markAttemptFailed call.key wall).setCall i (call.afterRecord false))
    | _ => none
  | .discard i => s.calls[i]?.bind fun call =>
    match call.phase with
    | .recorded succeeded => some (s.release i call succeeded)
    | _ => none

/-- The module as it is loaded, with what was cached at startup. -/
def VocabularyState.startup (clock : ℚ) (cache : VocabularyKey → Option (List String)) : VocabularyState :=
  { clock := clock, enabled := true, cache := cache, inFlight := fun _ => false, lastFailure := fun _ => none
    lastFailureAt := fun _ => none, calls := [], lastFinish := fun _ => none, writes := [], starts := [] }

/-! ## What every run should keep -/

/-- The call at an index comes to its end by steps of its own. -/
def VocabularyState.Ends (s : VocabularyState) (i : ℕ) : Prop :=
  ∃ ls s', (∀ l ∈ ls, RefreshStep.call l = some i) ∧ run refreshStep s ls = some s' ∧
    ∃ call, s'.calls[i]? = some call ∧ call.phase.hasEnded = true

/-- **Self-healing**: what overlapping triggers, refreshes and operators leave intact. -/
structure SelfHealing (cached : VocabularyKey → Option (List String)) (s : VocabularyState) : Prop where
  /-- At most one background refresh of a key is in flight, and its marker is there just as long. -/
  single : ∀ k, s.calls.countP (RefreshCall.inFlightFor k) = if s.inFlight k then 1 else 0
  /-- A background refresh that is over has removed the marker exactly once; nothing else removes it. -/
  removedOnce : ∀ call ∈ s.calls, call.removals = if call.finished then 1 else 0
  /-- Every background refresh in flight gets there. -/
  ends : ∀ i call, s.calls[i]? = some call → call.inFlight = true → s.Ends i
  /-- The cached values are those of the newest write. -/
  newest : ∀ k, s.cache k = ((s.writes.find? (·.key = k)).map (·.values)).or (cached k)
  /-- A write is of an attempt that has succeeded. -/
  written : ∀ w ∈ s.writes, ∃ call, s.calls[w.call]? = some call ∧ call.key = w.key ∧
    call.phase.succeeded = true
  /-- The monotonic record is there when the last finished attempt failed, and says when. -/
  monotonic : ∀ k, s.lastFailure k = (s.lastFinish k).bind Finish.failedAt
  /-- The wall-clock record is there when the monotonic one is. -/
  wallClock : ∀ k, (s.lastFailureAt k).isSome = (s.lastFailure k).isSome
  /-- No background refresh starts within the back-off. -/
  backsOff : ∀ start ∈ s.starts, start.BacksOff
  /-- No trigger raises. -/
  quiet : ∀ call ∈ s.calls, call.phase ≠ .raised

/-- The thread starts, and in time: no thread fails to start, and no manual refresh of a key fails between
a trigger's marker and its thread. -/
def StartsInTime (s : VocabularyState) : RefreshStep → Prop
  | .startFails _ => False
  | .record i _ => ∀ call ∈ s.calls[i]?.toList, call.background = false → call.phase = .failed →
      ∀ other ∈ s.calls, other.phase = .taken → other.key ≠ call.key
  | _ => True

instance (s : VocabularyState) : ∀ l, Decidable (StartsInTime s l)
  | .startFails _ => inferInstanceAs (Decidable False)
  | .record i _ => inferInstanceAs (Decidable (∀ call ∈ s.calls[i]?.toList, call.background = false →
      call.phase = .failed → ∀ other ∈ s.calls, other.phase = .taken → other.key ≠ call.key))
  | .tick _ | .enable _ | .trigger _ | .manual _ | .check _ | .start _ | .answer _ _ | .discard _ =>
    inferInstanceAs (Decidable True)

end LocalSqlAgent
