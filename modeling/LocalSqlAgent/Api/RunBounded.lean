import LocalSqlAgent.Lib.Pool
import LocalSqlAgent.Lib.Transition

/-! # The worker-thread bound

`run_bounded` of `api.concurrency`: a call takes a slot of one `asyncio.Semaphore`, hands its function
to a worker thread and gives the slot back when its own wait is over. A cancelled call is over at once;
a thread that executes its function is not interrupted.

* **`semaphoreStep`**: one event of the loop or of a worker thread.
* **`slotsBalanced_of_run`**: every slot taken is given back exactly once, in every interleaving.
* **`threads_le_of_run`**: as long as no cancellation strikes a call whose function is executing, at most
  `limit` threads execute one.
* **`threads_unbounded`**: with such cancellations there is no bound. -/

namespace LocalSqlAgent

namespace RunBounded

/-! ## Calls -/

/-- How far the function of a call has come in the executor. -/
inductive Work where
  /-- Not handed over. -/
  | none
  /-- Waiting for a worker thread. -/
  | queued
  /-- A worker thread executes it. -/
  | executing
  /-- It returned or raised. -/
  | finished
  /-- Taken back before a thread got to it. -/
  | dropped
  deriving DecidableEq, Repr

/-- Where the coroutine of a call stands. -/
inductive Phase where
  /-- In `acquire`, its future pending. -/
  | waiting
  /-- In `acquire`, its future set: the slot is its own. -/
  | granted
  /-- In `await asyncio.to_thread`. -/
  | holding
  /-- Returned, raised or cancelled. -/
  | ended
  deriving DecidableEq, Repr

/-- A call, with the slots it took and gave back as bookkeeping for the proofs. -/
structure Call where
  phase : Phase
  work : Work
  /-- Decrements of the counter on its behalf. -/
  taken : ℕ
  /-- Increments of the counter on its behalf. -/
  givenBack : ℕ
  deriving DecidableEq, Repr

/-- The call has a slot. -/
def Call.hasSlot (c : Call) : Bool := c.phase = .granted ∨ c.phase = .holding

/-- A worker thread executes the function of the call. -/
def Call.executes (c : Call) : Bool := c.work = .executing

/-- The semaphore and the calls. -/
structure State where
  /-- `_value`. -/
  value : ℕ
  /-- `_waiters`: the calls whose futures stand in the deque. -/
  waiters : List ℕ
  /-- The calls, in the order they were made. -/
  calls : List Call
  deriving DecidableEq, Repr

/-- `asyncio.Semaphore(limit)`. -/
def State.init (limit : ℕ) : State := ⟨limit, [], []⟩

/-- The number of worker threads that execute a function. -/
def State.threads (s : State) : ℕ := s.calls.countP Call.executes

/-! ## The semaphore -/

/-- The future of a waiting call is pending. -/
def State.pending (s : State) (i : ℕ) : Bool := (s.calls[i]?).any fun c => c.phase = .waiting

/-- The slot a call takes when its future is set. -/
def Call.grant (c : Call) : Call := { c with phase := .granted, taken := c.taken + 1 }

/-- `_wake_up_next`, where a slot is free: the first pending future is set; `none` when there is none. -/
def State.wakeUpNext (s : State) : Option State :=
  match s.value, s.waiters.find? s.pending with
  | v + 1, some i => (s.calls[i]?).map fun c => { s with value := v, calls := s.calls.set i c.grant }
  | _, _ => none

/-- The loop at the end of `acquire`: futures are set while slots are free. -/
def State.wakeUp : ℕ → State → State
  | 0, s => s
  | n + 1, s =>
    match s.wakeUpNext with
    | some s' => wakeUp n s'
    | none => s

/-- `release`. -/
def State.release (s : State) : State :=
  let s' := { s with value := s.value + 1 }
  s'.wakeUpNext.getD s'

/-- `acquire` without waiting: a slot is free and no future stands in the deque. -/
def State.unlocked (s : State) : Bool := 0 < s.value ∧ s.waiters = []

/-- What happens next. -/
inductive Step where
  /-- `run_bounded` is called. -/
  | call
  /-- The call at an index goes on with the slot it was given. -/
  | resume (i : ℕ)
  /-- A worker thread takes the function of a call. -/
  | start (i : ℕ)
  /-- The function returns or raises. -/
  | finish (i : ℕ)
  /-- The call goes on with the result. -/
  | leave (i : ℕ)
  /-- The task of a call is cancelled. -/
  | cancel (i : ℕ)
  deriving DecidableEq, Repr

/-- What a cancellation does to the function: it is taken back, unless a thread has it. -/
def Work.cancelled : Work → Work
  | .queued => .dropped
  | w => w

/-- **One step.** A call that is given a slot hands its function over in the same step. -/
def semaphoreStep (s : State) : Step → Option State
  | .call =>
    if s.unlocked then some { s with value := s.value - 1, calls := s.calls ++ [⟨.holding, .queued, 1, 0⟩] }
    else some { s with waiters := s.waiters ++ [s.calls.length], calls := s.calls ++ [⟨.waiting, .none, 0, 0⟩] }
  | .resume i =>
    match s.calls[i]? with
    | some ⟨.granted, _, taken, givenBack⟩ =>
      some (State.wakeUp s.value
        { s with waiters := s.waiters.erase i, calls := s.calls.set i ⟨.holding, .queued, taken, givenBack⟩ })
    | _ => none
  | .start i =>
    match s.calls[i]? with
    | some ⟨phase, .queued, taken, givenBack⟩ =>
      some { s with calls := s.calls.set i ⟨phase, .executing, taken, givenBack⟩ }
    | _ => none
  | .finish i =>
    match s.calls[i]? with
    | some ⟨phase, .executing, taken, givenBack⟩ =>
      some { s with calls := s.calls.set i ⟨phase, .finished, taken, givenBack⟩ }
    | _ => none
  | .leave i =>
    match s.calls[i]? with
    | some ⟨.holding, .finished, taken, givenBack⟩ =>
      some (State.release { s with calls := s.calls.set i ⟨.ended, .finished, taken, givenBack + 1⟩ })
    | _ => none
  | .cancel i =>
    match s.calls[i]? with
    | some ⟨.waiting, work, taken, givenBack⟩ =>
      some (State.wakeUp s.value
        { s with waiters := s.waiters.erase i, calls := s.calls.set i ⟨.ended, work, taken, givenBack⟩ })
    | some ⟨.granted, work, taken, givenBack⟩ =>
      some (State.wakeUp (s.value + 1)
        ⟨s.value + 1, s.waiters.erase i, s.calls.set i ⟨.ended, work, taken, givenBack + 1⟩⟩)
    | some ⟨.holding, work, taken, givenBack⟩ =>
      some (State.release { s with calls := s.calls.set i ⟨.ended, work.cancelled, taken, givenBack + 1⟩ })
    | _ => none

/-! ## What one waking does -/

/-- **One future is set**: a waiting call takes a free slot. -/
theorem wakeUpNext_cases {s s' : State} (h : s.wakeUpNext = some s') :
    ∃ i c, s.calls[i]? = some c ∧ c.phase = .waiting ∧ s.value = s'.value + 1 ∧
      s'.calls = s.calls.set i c.grant := by
  unfold State.wakeUpNext at h
  split at h
  · rename_i v i hvalue hfind
    obtain ⟨c, hc, rfl⟩ := Option.map_eq_some_iff.mp h
    refine ⟨i, c, hc, ?_, hvalue, rfl⟩
    have hpending := List.find?_some hfind
    rw [State.pending, hc] at hpending
    simpa using hpending
  · cases h

/-- **The waking rule**: what every set future keeps, the loop keeps. -/
theorem wakeUp_induct {I : State → Prop} (hpres : ∀ s s', I s → s.wakeUpNext = some s' → I s') {n : ℕ}
    {s : State} (h : I s) : I (State.wakeUp n s) := by
  induction n generalizing s with
  | zero => exact h
  | succ n ih =>
    rw [State.wakeUp]
    cases hwake : s.wakeUpNext with
    | none => exact h
    | some s' => exact ih (hpres s s' h hwake)

theorem release_induct {I : State → Prop} (hpres : ∀ s s', I s → s.wakeUpNext = some s' → I s')
    {s : State} (h : I { s with value := s.value + 1 }) : I s.release := by
  unfold State.release
  cases hwake : ({ s with value := s.value + 1 } : State).wakeUpNext with
  | none =>
    dsimp only
    rw [hwake]
    exact h
  | some s' =>
    dsimp only
    rw [hwake]
    exact hpres _ s' h hwake

/-! ## The account of the slots -/

/-- **The account of one call**: a waiting call took nothing, one with a slot took one, and one that is
over gave back what it took. Only a call in its `await` has a function waiting for a thread. -/
def Call.Balanced (c : Call) : Prop :=
  match c.phase with
  | .waiting => c.work = .none ∧ c.taken = 0 ∧ c.givenBack = 0
  | .granted => c.work = .none ∧ c.taken = 1 ∧ c.givenBack = 0
  | .holding => c.taken = 1 ∧ c.givenBack = 0
  | .ended => c.work ≠ .queued ∧ c.taken ≤ 1 ∧ c.givenBack = c.taken

/-- **The slots are balanced**: the free ones and those of the calls are all there are, and every call's
account is balanced. -/
structure SlotsBalanced (limit : ℕ) (s : State) : Prop where
  total : s.value + s.calls.countP Call.hasSlot = limit
  balanced : ∀ c ∈ s.calls, c.Balanced

variable {limit : ℕ} {s s' : State} {c c' : Call} {i : ℕ}

/-- Replacing one call moves the counter by what the call has before and after. -/
theorem SlotsBalanced.set (h : SlotsBalanced limit s) (hc : s.calls[i]? = some c) {value : ℕ}
    {waiters : List ℕ}
    (hvalue : value + (if c'.hasSlot then 1 else 0) = s.value + if c.hasSlot then 1 else 0)
    (hc' : c'.Balanced) : SlotsBalanced limit ⟨value, waiters, s.calls.set i c'⟩ := by
  refine ⟨?_, Pool.forall_mem_set h.balanced hc'⟩
  have hcount := @Pool.countP_set _ s.calls i c c' Call.hasSlot hc
  have htotal := h.total
  show value + (s.calls.set i c').countP Call.hasSlot = limit
  omega

theorem SlotsBalanced.wakeUpNext (h : SlotsBalanced limit s) (hwake : s.wakeUpNext = some s') :
    SlotsBalanced limit s' := by
  obtain ⟨i, c, hc, hphase, hvalue, hcalls⟩ := wakeUpNext_cases hwake
  have hbalanced := h.balanced c (List.mem_of_getElem? hc)
  rw [Call.Balanced, hphase] at hbalanced
  obtain ⟨hwork, htaken, hgiven⟩ := hbalanced
  obtain ⟨value, waiters, calls⟩ := s'
  dsimp only at hvalue hcalls
  subst hcalls
  refine h.set hc ?_ ⟨hwork, ?_, hgiven⟩
  · have hbefore : c.hasSlot = false := by simp [Call.hasSlot, hphase]
    have hafter : c.grant.hasSlot = true := rfl
    rw [hbefore, hafter, hvalue]
    rfl
  · show c.taken + 1 = 1
    rw [htaken]

/-- A call that is over has given back its slot, and another one may be given it. -/
theorem SlotsBalanced.release (h : SlotsBalanced limit s) (hc : s.calls[i]? = some c)
    (hphase : c.phase = .holding) {work : Work} (hwork : work ≠ .queued) :
    SlotsBalanced limit
      (State.release { s with calls := s.calls.set i ⟨.ended, work, c.taken, c.givenBack + 1⟩ }) := by
  have hbalanced : c.taken = 1 ∧ c.givenBack = 0 := by
    have hcall := h.balanced c (List.mem_of_getElem? hc)
    rw [Call.Balanced, hphase] at hcall
    exact hcall
  refine release_induct (fun s s' hs hwake => hs.wakeUpNext hwake) (h.set hc ?_ ⟨hwork, ?_, ?_⟩)
  · simp [Call.hasSlot, hphase]
  · show c.taken ≤ 1
    omega
  · show c.givenBack + 1 = c.taken
    omega

theorem Work.cancelled_ne_queued (w : Work) : w.cancelled ≠ .queued := by
  cases w <;> decide

/-- Every step keeps the slots balanced. -/
theorem SlotsBalanced.step (h : SlotsBalanced limit s) {l : Step} (hstep : semaphoreStep s l = some s') :
    SlotsBalanced limit s' := by
  cases l with
  | call =>
    rw [semaphoreStep] at hstep
    split at hstep
    · rename_i hfree
      cases hstep
      -- a free slot is taken on the spot
      have hpos : 0 < s.value := by
        rw [State.unlocked, decide_eq_true_iff] at hfree
        exact hfree.1
      have htotal := h.total
      refine ⟨?_, ?_⟩
      · show s.value - 1 + (s.calls ++ [_]).countP Call.hasSlot = limit
        rw [List.countP_append, List.countP_singleton]
        show s.value - 1 + (s.calls.countP Call.hasSlot + 1) = limit
        omega
      · exact List.forall_mem_append.mpr ⟨h.balanced, List.forall_mem_singleton.mpr ⟨rfl, rfl⟩⟩
    · cases hstep
      refine ⟨?_, List.forall_mem_append.mpr ⟨h.balanced, List.forall_mem_singleton.mpr ⟨rfl, rfl, rfl⟩⟩⟩
      show s.value + (s.calls ++ [_]).countP Call.hasSlot = limit
      rw [List.countP_append, List.countP_singleton]
      exact h.total
  | resume i =>
    rw [semaphoreStep] at hstep
    split at hstep
    · rename_i work taken givenBack hc
      cases hstep
      have hbalanced : _ ∧ taken = 1 ∧ givenBack = 0 := h.balanced _ (List.mem_of_getElem? hc)
      exact wakeUp_induct (fun s s' hs hwake => hs.wakeUpNext hwake)
        (h.set hc (by simp [Call.hasSlot]) hbalanced.2)
    · cases hstep
  | start i =>
    rw [semaphoreStep] at hstep
    split at hstep
    · rename_i phase taken givenBack hc
      cases hstep
      have hbalanced := h.balanced _ (List.mem_of_getElem? hc)
      refine h.set hc (by simp [Call.hasSlot]) ?_
      cases phase with
      | waiting => cases hbalanced.1
      | granted => cases hbalanced.1
      | holding => exact hbalanced
      | ended => exact absurd rfl hbalanced.1
    · cases hstep
  | finish i =>
    rw [semaphoreStep] at hstep
    split at hstep
    · rename_i phase taken givenBack hc
      cases hstep
      have hbalanced := h.balanced _ (List.mem_of_getElem? hc)
      refine h.set hc (by simp [Call.hasSlot]) ?_
      cases phase with
      | waiting => cases hbalanced.1
      | granted => cases hbalanced.1
      | holding => exact hbalanced
      | ended => exact ⟨fun hwork => (by cases hwork), hbalanced.2⟩
    · cases hstep
  | leave i =>
    rw [semaphoreStep] at hstep
    split at hstep
    · rename_i taken givenBack hc
      cases hstep
      exact h.release hc rfl (by decide)
    · cases hstep
  | cancel i =>
    rw [semaphoreStep] at hstep
    split at hstep
    · rename_i work taken givenBack hc
      cases hstep
      -- still in the deque: no slot was taken
      have hbalanced : work = .none ∧ taken = 0 ∧ givenBack = 0 := h.balanced _ (List.mem_of_getElem? hc)
      obtain ⟨rfl, rfl, rfl⟩ := hbalanced
      exact wakeUp_induct (fun s s' hs hwake => hs.wakeUpNext hwake)
        (h.set hc (by simp [Call.hasSlot]) ⟨by decide, Nat.zero_le _, rfl⟩)
    · rename_i work taken givenBack hc
      cases hstep
      -- the slot was given and is passed on
      have hbalanced : work = .none ∧ taken = 1 ∧ givenBack = 0 := h.balanced _ (List.mem_of_getElem? hc)
      obtain ⟨rfl, rfl, rfl⟩ := hbalanced
      exact wakeUp_induct (fun s s' hs hwake => hs.wakeUpNext hwake)
        (h.set hc (by simp [Call.hasSlot]) ⟨by decide, Nat.le_refl _, rfl⟩)
    · rename_i work taken givenBack hc
      cases hstep
      exact h.release hc rfl work.cancelled_ne_queued
    · cases hstep

/-- **Every slot taken is given back exactly once**, in every interleaving. -/
theorem slotsBalanced_of_run {steps : List Step}
    (h : run semaphoreStep (State.init limit) steps = some s) : SlotsBalanced limit s := by
  refine (run_eq_some_iff.mp h).invariant ?_ fun _ _ _ hs _ hstep => hs.step hstep
  exact ⟨rfl, nofun⟩

/-! ## The bound on threads -/

/-- **A function is attended**: it goes to a thread only when its call holds a slot, and no thread executes
it once the call is over. -/
def Call.Attended (c : Call) : Prop :=
  match c.phase with
  | .waiting | .granted => c.work = .none
  | .holding => True
  | .ended => c.work ≠ .queued ∧ c.work ≠ .executing

/-- Every function is attended. -/
def Attended (s : State) : Prop := ∀ c ∈ s.calls, c.Attended

/-- No cancellation strikes a call whose function is executing. -/
def SparesExecuting (s : State) : Step → Prop
  | .cancel i => ∀ c, s.calls[i]? = some c → c.work ≠ .executing
  | _ => True

instance (s : State) (l : Step) : Decidable (SparesExecuting s l) :=
  match l with
  | .cancel i =>
    match h : s.calls[i]? with
    | some c => decidable_of_iff (c.work ≠ .executing) (by simp [SparesExecuting, h])
    | none => isTrue (by simp [SparesExecuting, h])
  | .call | .resume _ | .start _ | .finish _ | .leave _ => isTrue trivial

theorem Attended.wakeUpNext (h : Attended s) (hwake : s.wakeUpNext = some s') : Attended s' := by
  obtain ⟨i, c, hc, hphase, -, hcalls⟩ := wakeUpNext_cases hwake
  have hcall := h c (List.mem_of_getElem? hc)
  rw [Call.Attended, hphase] at hcall
  unfold Attended
  rw [hcalls]
  exact Pool.forall_mem_set h hcall

theorem Attended.wakeUp {n : ℕ} (h : Attended s) : Attended (State.wakeUp n s) :=
  wakeUp_induct (fun _ _ hs hwake => hs.wakeUpNext hwake) h

/-- A call that is over leaves no function behind. -/
theorem Attended.release {calls : List Call} {value : ℕ} {waiters : List ℕ} (h : ∀ c ∈ calls, c.Attended) :
    Attended (State.release ⟨value, waiters, calls⟩) :=
  release_induct (fun _ _ hs hwake => hs.wakeUpNext hwake) h

/-- A step that spares the executing functions leaves every function attended. -/
theorem Attended.step (h : Attended s) {l : Step} (hspares : SparesExecuting s l)
    (hstep : semaphoreStep s l = some s') : Attended s' := by
  cases l with
  | call =>
    rw [semaphoreStep] at hstep
    split at hstep
    · cases hstep
      exact List.forall_mem_append.mpr ⟨h, List.forall_mem_singleton.mpr trivial⟩
    · cases hstep
      exact List.forall_mem_append.mpr ⟨h, List.forall_mem_singleton.mpr rfl⟩
  | resume i =>
    rw [semaphoreStep] at hstep
    split at hstep
    · cases hstep
      exact Attended.wakeUp (Pool.forall_mem_set h trivial)
    · cases hstep
  | start i =>
    rw [semaphoreStep] at hstep
    split at hstep
    · rename_i phase taken givenBack hc
      cases hstep
      have hcall := h _ (List.mem_of_getElem? hc)
      refine Pool.forall_mem_set h ?_
      cases phase with
      | waiting => cases hcall
      | granted => cases hcall
      | holding => trivial
      | ended => exact absurd rfl hcall.1
    · cases hstep
  | finish i =>
    rw [semaphoreStep] at hstep
    split at hstep
    · rename_i phase taken givenBack hc
      cases hstep
      have hcall := h _ (List.mem_of_getElem? hc)
      refine Pool.forall_mem_set h ?_
      cases phase with
      | waiting => cases hcall
      | granted => cases hcall
      | holding => trivial
      | ended => exact absurd rfl hcall.2
    · cases hstep
  | leave i =>
    rw [semaphoreStep] at hstep
    split at hstep
    · cases hstep
      exact Attended.release (Pool.forall_mem_set h
        ⟨fun hwork => (by cases hwork), fun hwork => (by cases hwork)⟩)
    · cases hstep
  | cancel i =>
    rw [semaphoreStep] at hstep
    split at hstep
    · rename_i work taken givenBack hc
      cases hstep
      have hnone : work = .none := h _ (List.mem_of_getElem? hc)
      subst hnone
      exact Attended.wakeUp (Pool.forall_mem_set h
        ⟨fun hwork => (by cases hwork), fun hwork => (by cases hwork)⟩)
    · rename_i work taken givenBack hc
      cases hstep
      have hnone : work = .none := h _ (List.mem_of_getElem? hc)
      subst hnone
      exact Attended.wakeUp (Pool.forall_mem_set h
        ⟨fun hwork => (by cases hwork), fun hwork => (by cases hwork)⟩)
    · rename_i work taken givenBack hc
      cases hstep
      -- the function is not executing, so it is taken back or over
      have hspared : work ≠ .executing := hspares _ hc
      refine Attended.release (Pool.forall_mem_set h ⟨work.cancelled_ne_queued, ?_⟩)
      cases work with
      | executing => exact absurd rfl hspared
      | none => exact fun hwork => (by cases hwork)
      | queued => exact fun hwork => (by cases hwork)
      | finished => exact fun hwork => (by cases hwork)
      | dropped => exact fun hwork => (by cases hwork)
    · cases hstep

/-- At most as many threads execute a function as there are slots, while each has one. -/
theorem SlotsBalanced.threads_le (h : SlotsBalanced limit s) (hattended : Attended s) : s.threads ≤ limit := by
  have hle : s.calls.countP Call.executes ≤ s.calls.countP Call.hasSlot := by
    refine List.countP_mono_left fun c hc hexecutes => ?_
    have hwork : c.work = .executing := by simpa [Call.executes] using hexecutes
    have hcall := hattended c hc
    unfold Call.Attended at hcall
    cases hphase : c.phase with
    | holding => simp [Call.hasSlot, hphase]
    | waiting | granted =>
      rw [hphase, hwork] at hcall
      cases hcall
    | ended =>
      rw [hphase] at hcall
      exact absurd hwork hcall.2
  have htotal := h.total
  unfold State.threads
  omega

/-- Two calls over one slot: the second one waits, is given the slot and runs after the first. -/
def twoCalls : List Step :=
  [.call, .call, .start 0, .finish 0, .leave 0, .resume 1, .start 1]

/-- One client: its function starts and it disconnects. -/
def disconnectSteps (i : ℕ) : List Step := [.call, .start i, .cancel i]

/-- The state after a number of such clients. -/
def disconnected (limit n : ℕ) : State := ⟨limit, [], List.replicate n ⟨.ended, .executing, 1, 1⟩⟩

theorem run_disconnectSteps {limit : ℕ} (hlimit : 0 < limit) (n : ℕ) :
    run semaphoreStep (disconnected limit n) (disconnectSteps n) = some (disconnected limit (n + 1)) := by
  obtain ⟨value, rfl⟩ := Nat.exists_eq_add_one_of_ne_zero (Nat.pos_iff_ne_zero.mp hlimit)
  generalize hcalls : List.replicate n (⟨.ended, .executing, 1, 1⟩ : Call) = calls
  have hlength : calls.length = n := by rw [← hcalls, List.length_replicate]
  have hget : ∀ c : Call, (calls ++ [c])[n]? = some c := fun c => by
    rw [← hlength]
    exact List.getElem?_concat_length
  have hset : ∀ c c' : Call, (calls ++ [c]).set n c' = calls ++ [c'] := fun c c' => by
    rw [← hlength, List.set_append_right _ _ (Nat.le_refl _), Nat.sub_self, List.set_cons_zero]
  have hcall : semaphoreStep ⟨value + 1, [], calls⟩ .call =
      some ⟨value, [], calls ++ [⟨.holding, .queued, 1, 0⟩]⟩ := rfl
  have hstart : semaphoreStep ⟨value, [], calls ++ [⟨.holding, .queued, 1, 0⟩]⟩ (.start n) =
      some ⟨value, [], calls ++ [⟨.holding, .executing, 1, 0⟩]⟩ := by
    rw [semaphoreStep, hget]
    dsimp only
    rw [hset]
  have hcancel : semaphoreStep ⟨value, [], calls ++ [⟨.holding, .executing, 1, 0⟩]⟩ (.cancel n) =
      some ⟨value + 1, [], calls ++ [⟨.ended, .executing, 1, 1⟩]⟩ := by
    rw [semaphoreStep, hget]
    dsimp only
    rw [hset]
    rfl
  have hlast : calls ++ [⟨.ended, .executing, 1, 1⟩] = List.replicate (n + 1) ⟨.ended, .executing, 1, 1⟩ := by
    rw [← hcalls, List.replicate_succ']
  show run semaphoreStep ⟨value + 1, [], List.replicate n _⟩ _ = _
  rw [hcalls, disconnectSteps, run_cons, hcall, Option.bind_some, run_cons, hstart, Option.bind_some,
    run_cons, hcancel, Option.bind_some, run_nil, hlast]
  rfl

/-- **Disconnecting clients leave any number of threads behind**, whatever the limit. -/
theorem threads_unbounded {limit : ℕ} (hlimit : 0 < limit) (n : ℕ) :
    ∃ steps s, run semaphoreStep (State.init limit) steps = some s ∧ s.threads = n := by
  have hrun : ∃ steps, run semaphoreStep (State.init limit) steps = some (disconnected limit n) := by
    induction n with
    | zero => exact ⟨[], rfl⟩
    | succ n ih =>
      obtain ⟨steps, hsteps⟩ := ih
      exact ⟨steps ++ disconnectSteps n, by rw [run_append, hsteps, Option.bind_some, run_disconnectSteps hlimit]⟩
  obtain ⟨steps, hsteps⟩ := hrun
  refine ⟨steps, _, hsteps, ?_⟩
  rw [State.threads, disconnected, List.countP_replicate]
  rfl

end RunBounded

end LocalSqlAgent
