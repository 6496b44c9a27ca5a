import LocalSqlAgent.Lib.Pool
import LocalSqlAgent.Lib.Transition
import Mathlib.Algebra.Order.Ring.Int

/-! # The concurrency cap

`ConcurrencyMiddleware`: a counter of slots under a lock, around the wrapped application. Requests are
coroutines: each section under the lock is a step, and so is every way out of the wrapped application,
which ends by returning, raising or being cancelled. The `finally` block releases on each of them.

* **`SlotsKept`**: the counter is the number of capped requests between their acquire and their
  release, and every slot taken is given back once.
* **`slotsKept_of_run`**: it holds in every state of every interleaving. -/

namespace LocalSqlAgent

namespace ConcurrencyMiddleware

/-! ## Requests -/

/-- The parts of an ASGI scope the middleware reads. -/
structure HttpScope where
  /-- `scope["type"]`. -/
  type : String
  /-- `scope["path"]`. -/
  path : String
  /-- `scope["method"]`. -/
  method : String
  deriving DecidableEq, Repr

/-- `re.match` with `$`: the last segment may end in a line feed. -/
def lastSegment (name : String) (segment : List Char) : Bool :=
  segment = name.toList ∨ segment = name.toList ++ ['\n']

/-- `^/v2/sessions/[^/]+/turns$`. -/
def isTurnsPath (path : String) : Bool :=
  match path.toList.splitOn '/' with
  | [root, v2, sessions, sid, turns] =>
    root = [] ∧ v2 = "v2".toList ∧ sessions = "sessions".toList ∧ sid ≠ [] ∧
      lastSegment "turns" turns
  | _ => false

/-- `^/v2/sessions/[^/]+/turns/[^/]+/assumptions$`. -/
def isAssumptionsPath (path : String) : Bool :=
  match path.toList.splitOn '/' with
  | [root, v2, sessions, sid, turns, tid, assumptions] =>
    root = [] ∧ v2 = "v2".toList ∧ sessions = "sessions".toList ∧ sid ≠ [] ∧
      turns = "turns".toList ∧ tid ≠ [] ∧ lastSegment "assumptions" assumptions
  | _ => false

/-- `_is_capped_request`. -/
def isCappedRequest (path method : String) : Bool :=
  if method = "POST" ∧ (path = "/query" ∨ path = "/query/stream") then true
  else if method = "POST" ∧ isTurnsPath path then true
  else if method = "PATCH" ∧ isAssumptionsPath path then true
  else false

/-- How a coroutine leaves an `await`. -/
inductive Outcome where
  | returned
  | raised
  | cancelled
  deriving DecidableEq, Repr

/-- How far a request has come. -/
inductive CallPhase where
  /-- It has come in. -/
  | arrived
  /-- It awaits the wrapped application without a slot. -/
  | passing
  /-- It awaits the sending of the 503. -/
  | refusing
  /-- It awaits the wrapped application, streamed body included, with a slot. -/
  | running
  /-- The wrapped application is over; the `finally` block is still to come. -/
  | leaving (outcome : Outcome)
  /-- It is over. -/
  | ended (outcome : Outcome)
  deriving DecidableEq, Repr

/-- A request, with the slots it took and gave back so far as bookkeeping for the proofs. -/
structure Request where
  /-- What it asks for. -/
  scope : HttpScope
  /-- How far it has come. -/
  phase : CallPhase
  /-- Calls of `_try_acquire` that returned `True`. -/
  acquired : ℕ
  /-- Calls of `_release`. -/
  released : ℕ
  deriving DecidableEq, Repr

/-- The request holds a slot. -/
def Request.holdsSlot (r : Request) : Bool :=
  match r.phase with
  | .running | .leaving _ => true
  | _ => false

/-- The counter and the requests. -/
structure State where
  /-- `_active`. -/
  active : ℤ
  /-- The requests, in the order they came in. -/
  requests : List Request
  deriving DecidableEq, Repr

/-- No request yet. -/
def State.init : State := ⟨0, []⟩

/-! ## Steps -/

/-- What happens next. -/
inductive Step where
  /-- A request comes in. -/
  | arrive (scope : HttpScope)
  /-- The request at an index runs up to its first `await`. -/
  | enter (i : ℕ)
  /-- The request at an index leaves its `await`, or is cancelled before it ran at all. -/
  | leave (i : ℕ) (outcome : Outcome)
  /-- The request at an index runs its `finally` block. -/
  | release (i : ℕ)
  deriving DecidableEq, Repr

/-- `_try_acquire`. -/
def tryAcquire (maxConcurrent active : ℤ) : Bool × ℤ :=
  if maxConcurrent ≤ active then (false, active) else (true, active + 1)

/-- The middleware up to its first `await`: the counter and the request. -/
def Request.enter (maxConcurrent active : ℤ) (r : Request) : ℤ × Request :=
  if r.scope.type ≠ "http" then (active, { r with phase := .passing })
  else if isCappedRequest r.scope.path r.scope.method then
    match tryAcquire maxConcurrent active with
    | (true, active') => (active', { r with phase := .running, acquired := r.acquired + 1 })
    | (false, active') => (active', { r with phase := .refusing })
  else (active, { r with phase := .passing })

/-- **One step of the middleware.** -/
def concurrencyStep (maxConcurrent : ℤ) (s : State) : Step → Option State
  | .arrive scope => some { s with requests := s.requests ++ [⟨scope, .arrived, 0, 0⟩] }
  | .enter i =>
    match s.requests[i]? with
    | some ⟨scope, .arrived, acquired, released⟩ =>
      let next := Request.enter maxConcurrent s.active ⟨scope, .arrived, acquired, released⟩
      some ⟨next.1, s.requests.set i next.2⟩
    | _ => none
  | .leave i outcome =>
    match s.requests[i]? with
    | some ⟨scope, .running, acquired, released⟩ =>
      some { s with requests := s.requests.set i ⟨scope, .leaving outcome, acquired, released⟩ }
    | some ⟨scope, .passing, acquired, released⟩ =>
      some { s with requests := s.requests.set i ⟨scope, .ended outcome, acquired, released⟩ }
    | some ⟨scope, .refusing, acquired, released⟩ =>
      some { s with requests := s.requests.set i ⟨scope, .ended outcome, acquired, released⟩ }
    | some ⟨scope, .arrived, acquired, released⟩ =>
      if outcome = .cancelled then
        some { s with requests := s.requests.set i ⟨scope, .ended outcome, acquired, released⟩ }
      else none
    | _ => none
  | .release i =>
    match s.requests[i]? with
    | some ⟨scope, .leaving outcome, acquired, released⟩ =>
      some ⟨s.active - 1, s.requests.set i ⟨scope, .ended outcome, acquired, released + 1⟩⟩
    | _ => none

/-! ## What the middleware keeps -/

/-- The scope is one the middleware caps. -/
def HttpScope.IsCapped (scope : HttpScope) : Prop :=
  scope.type = "http" ∧ isCappedRequest scope.path scope.method = true

/-- **The account of one request**: nothing is taken before it runs, a running request holds the one slot
it took, and a request that is over gave back what it took. -/
def Request.Balanced (r : Request) : Prop :=
  match r.phase with
  | .arrived | .passing | .refusing => r.acquired = 0 ∧ r.released = 0
  | .running | .leaving _ => r.scope.IsCapped ∧ r.acquired = 1 ∧ r.released = 0
  | .ended _ => r.acquired ≤ 1 ∧ r.released = r.acquired

/-- **The counter is right.** The configured maximum is not checked: below zero it admits nobody, and the
counter stays at zero. -/
structure SlotsKept (maxConcurrent : ℤ) (s : State) : Prop where
  /-- The counter is never negative. -/
  nonneg : 0 ≤ s.active
  /-- It stays within the cap. -/
  capped : s.active ≤ max maxConcurrent 0
  /-- It counts the requests that hold a slot. -/
  inFlight : s.active = s.requests.countP Request.holdsSlot
  /-- Every request's account is balanced. -/
  balanced : ∀ r ∈ s.requests, r.Balanced

variable {maxConcurrent active : ℤ} {s s' : State} {r r' : Request} {i : ℕ}

/-- A request gives back what it took and no more, at most one slot. -/
theorem Request.Balanced.released_le (h : r.Balanced) : r.released ≤ r.acquired ∧ r.acquired ≤ 1 := by
  unfold Request.Balanced at h
  split at h <;> omega

/-- Replacing one request moves the count by what the request holds before and after. -/
theorem countP_holdsSlot_set {requests : List Request} (hr : requests[i]? = some r) :
    ((requests.set i r').countP Request.holdsSlot : ℤ) =
      requests.countP Request.holdsSlot - (if r.holdsSlot then 1 else 0) +
        (if r'.holdsSlot then 1 else 0) := by
  have hset := Pool.countP_set (p := Request.holdsSlot) (b := r') hr
  split at hset <;> split at hset <;> simp only [*, if_true, if_false, Bool.false_eq_true] <;> omega

/-- **The step of one request**: the counter moves with what the request holds, within the cap. -/
theorem SlotsKept.set (h : SlotsKept maxConcurrent s) (hr : s.requests[i]? = some r)
    (hactive : active = s.active - (if r.holdsSlot then 1 else 0) + (if r'.holdsSlot then 1 else 0))
    (hcap : active ≤ max maxConcurrent 0) (hr' : r'.Balanced) :
    SlotsKept maxConcurrent ⟨active, s.requests.set i r'⟩ := by
  have hcount : active = (s.requests.set i r').countP Request.holdsSlot := by
    rw [countP_holdsSlot_set hr, hactive, h.inFlight]
  refine ⟨?_, hcap, hcount, Pool.forall_mem_set h.balanced hr'⟩
  -- the counter is a number of requests
  show 0 ≤ active
  omega

/-- A request comes in with a balanced account and without a slot. -/
theorem SlotsKept.arrive (h : SlotsKept maxConcurrent s) (scope : HttpScope) :
    SlotsKept maxConcurrent { s with requests := s.requests ++ [⟨scope, .arrived, 0, 0⟩] } := by
  refine ⟨h.nonneg, h.capped, ?_, ?_⟩
  · simpa [List.countP_append, Request.holdsSlot] using h.inFlight
  · intro q hq
    obtain hmem | hnew := List.mem_append.mp hq
    · exact h.balanced q hmem
    · rw [List.mem_singleton] at hnew
      subst hnew
      exact ⟨rfl, rfl⟩

/-- A request that enters takes a slot below the cap, or none. -/
theorem SlotsKept.enter (h : SlotsKept maxConcurrent s) {scope : HttpScope} {acquired released : ℕ}
    (hr : s.requests[i]? = some ⟨scope, .arrived, acquired, released⟩) :
    SlotsKept maxConcurrent
      ⟨(Request.enter maxConcurrent s.active ⟨scope, .arrived, acquired, released⟩).1,
        s.requests.set i (Request.enter maxConcurrent s.active ⟨scope, .arrived, acquired, released⟩).2⟩ := by
  have hnone : acquired = 0 ∧ released = 0 := h.balanced _ (List.mem_of_getElem? hr)
  have hcapped := h.capped
  unfold Request.enter tryAcquire
  split_ifs with htype hpath hfull
  · -- a websocket or a lifespan scope passes through
    exact h.set hr (by simp [Request.holdsSlot]) hcapped hnone
  · exact h.set hr (by simp [Request.holdsSlot]) hcapped hnone
  · -- a slot below the cap is free
    refine h.set hr (by simp [Request.holdsSlot]) ?_ ?_
    · show s.active + 1 ≤ max maxConcurrent 0
      omega
    · exact ⟨⟨not_not.mp htype, hpath⟩, by simp [hnone.1], hnone.2⟩
  · -- full: the refusal takes none
    exact h.set hr (by simp [Request.holdsSlot]) hcapped hnone

/-- A request that took no slot and is over leaves the counter alone. -/
theorem SlotsKept.endIdle (h : SlotsKept maxConcurrent s) {scope : HttpScope} {phase : CallPhase}
    {acquired released : ℕ} (hr : s.requests[i]? = some ⟨scope, phase, acquired, released⟩)
    (hfree : Request.holdsSlot ⟨scope, phase, acquired, released⟩ = false)
    (hnone : acquired = 0 ∧ released = 0) (outcome : Outcome) :
    SlotsKept maxConcurrent
      { s with requests := s.requests.set i ⟨scope, .ended outcome, acquired, released⟩ } := by
  obtain ⟨rfl, rfl⟩ := hnone
  refine h.set hr ?_ h.capped ⟨Nat.zero_le 1, rfl⟩
  rw [hfree]
  simp [Request.holdsSlot]

/-- Leaving the wrapped application keeps the slot until the `finally` block. -/
theorem SlotsKept.leave (h : SlotsKept maxConcurrent s) {outcome : Outcome}
    (hstep : concurrencyStep maxConcurrent s (.leave i outcome) = some s') : SlotsKept maxConcurrent s' := by
  rw [concurrencyStep] at hstep
  split at hstep
  · rename_i scope acquired released hr
    cases hstep
    -- returned, raised or cancelled: the slot is held until the `finally` block runs
    have hheld : scope.IsCapped ∧ acquired = 1 ∧ released = 0 := h.balanced _ (List.mem_of_getElem? hr)
    exact h.set hr (by simp [Request.holdsSlot]) h.capped hheld
  · rename_i hr
    cases hstep
    exact h.endIdle hr rfl (h.balanced _ (List.mem_of_getElem? hr)) outcome
  · rename_i hr
    cases hstep
    exact h.endIdle hr rfl (h.balanced _ (List.mem_of_getElem? hr)) outcome
  · rename_i hr
    split at hstep
    · -- cancelled before it ran
      cases hstep
      exact h.endIdle hr rfl (h.balanced _ (List.mem_of_getElem? hr)) outcome
    · cases hstep
  · cases hstep

/-- The `finally` block gives back the slot of the request that runs it. -/
theorem SlotsKept.release (h : SlotsKept maxConcurrent s) {scope : HttpScope} {outcome : Outcome}
    {acquired released : ℕ} (hr : s.requests[i]? = some ⟨scope, .leaving outcome, acquired, released⟩) :
    SlotsKept maxConcurrent
      ⟨s.active - 1, s.requests.set i ⟨scope, .ended outcome, acquired, released + 1⟩⟩ := by
  have hheld : _ ∧ acquired = 1 ∧ released = 0 := h.balanced _ (List.mem_of_getElem? hr)
  refine h.set hr (by simp [Request.holdsSlot]) (by have := h.capped; omega) ⟨?_, ?_⟩
  · show acquired ≤ 1
    omega
  · show released + 1 = acquired
    omega

/-- Every step keeps the counter right. -/
theorem SlotsKept.step (h : SlotsKept maxConcurrent s) {l : Step}
    (hstep : concurrencyStep maxConcurrent s l = some s') : SlotsKept maxConcurrent s' := by
  cases l with
  | arrive scope =>
    cases hstep
    exact h.arrive scope
  | enter i =>
    rw [concurrencyStep] at hstep
    split at hstep
    · cases hstep
      exact h.enter ‹_›
    · cases hstep
  | leave i outcome => exact h.leave hstep
  | release i =>
    rw [concurrencyStep] at hstep
    split at hstep
    · cases hstep
      exact h.release ‹_›
    · cases hstep

/-- **Every interleaving keeps the counter right**, whatever the configured maximum. -/
theorem slotsKept_of_run {steps : List Step}
    (h : run (concurrencyStep maxConcurrent) State.init steps = some s) : SlotsKept maxConcurrent s := by
  refine (run_eq_some_iff.mp h).invariant ?_ fun _ _ _ hs _ hstep => hs.step hstep
  exact ⟨le_rfl, le_max_right _ _, rfl, nofun⟩

/-- A capped request. -/
def postQuery : HttpScope := ⟨"http", "/query", "POST"⟩

/-- With one slot, a second request is refused while the first one streams, and the first one's client
disconnects. -/
def oneSlotRun : List Step :=
  [.arrive postQuery, .arrive postQuery, .enter 0, .enter 1, .leave 0 .cancelled, .leave 1 .returned,
    .release 0]

theorem slotsKept_oneSlotRun :
    SlotsKept 1 ⟨0, [⟨postQuery, .ended .cancelled, 1, 1⟩, ⟨postQuery, .ended .returned, 0, 0⟩]⟩ := by
  have hrun : run (concurrencyStep 1) State.init oneSlotRun
      = some ⟨0, [⟨postQuery, .ended .cancelled, 1, 1⟩, ⟨postQuery, .ended .returned, 0, 0⟩]⟩ := by decide
  exact slotsKept_of_run hrun

/-- **A negative maximum is below the counter from the start**: it refuses every request, and the counter
stays at zero. -/
theorem negativeMaximum_exceeded :
    run (concurrencyStep (-1)) State.init [.arrive postQuery, .enter 0]
      = some ⟨0, [⟨postQuery, .refusing, 0, 0⟩]⟩ ∧
    ¬ ∀ (maxConcurrent : ℤ) (steps : List Step) (s : State),
      run (concurrencyStep maxConcurrent) State.init steps = some s →
        0 ≤ s.active ∧ s.active ≤ maxConcurrent := by
  refine ⟨by decide, fun hall => ?_⟩
  have hle := (hall (-1) [] State.init rfl).2
  exact absurd hle (by decide)

end ConcurrencyMiddleware

end LocalSqlAgent
