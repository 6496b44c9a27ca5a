import LocalSqlAgent.Appdb.KeyStore
import LocalSqlAgent.Lib.Pool

/-! # The key cache under concurrency

`get_active_principals` checks the cache under a lock, reads the key rows and then the role rows
outside it, and stores the merged set under the lock again; a mutation commits, then clears the
cache, then returns. Every one of these is a step of its own here, so that calls and mutations
interleave freely.

* **`keyCacheStep`**: the interleaved system.
* **`Coherent`**: no call returns a set that misses a mutation which had returned before it began.
* **`coherent_of_runWhere_storesFresh`**: coherence of every run in which no call stores a set that
  misses a mutation whose invalidation is already over. -/

namespace LocalSqlAgent

/-! ## States -/

/-- Which state of the tables a principal set was computed from: how many mutations had committed
when the key rows and when the role rows were read; nothing when the database did not answer. -/
inductive ReadPoint where
  | outage
  | tables (keysAt rolesAt : Nat)
  deriving DecidableEq, Repr

/-- The read point misses the mutation committed at index `i` in a table: its read of that table was
earlier. -/
def ReadPoint.Misses (r : ReadPoint) (i : Nat) (table : KeyTable) : Prop :=
  match r with
  | .outage => False
  | .tables keysAt rolesAt =>
    match table with
    | .keys => keysAt ≤ i
    | .roles => rolesAt ≤ i

instance (r : ReadPoint) (i : Nat) (table : KeyTable) : Decidable (r.Misses i table) := by
  unfold ReadPoint.Misses
  cases r <;> cases table <;> infer_instance

/-- A principal set and what it was computed from. -/
structure ComputedSet where
  /-- The set. -/
  principals : PrincipalSet
  /-- The read point. -/
  readAt : ReadPoint
  deriving DecidableEq

/-- How far a mutation has come. -/
inductive MutationPhase where
  | committed
  | invalidated
  | returned
  deriving DecidableEq, Repr

/-- A committed mutation. -/
structure MutationRecord where
  /-- The mutation. -/
  mutation : KeyMutation
  /-- How far it has come. -/
  phase : MutationPhase
  deriving DecidableEq, Repr

/-- How far a `get_active_principals` call has come. -/
inductive CallPhase where
  | begun
  | missed
  | keysRead (keysAt : Nat) (rows : List KeyRow)
  | rowsRead (rows : List LoadedRow) (readAt : ReadPoint)
  | merged (set : ComputedSet)
  | returned (set : ComputedSet)
  deriving DecidableEq

/-- One call: the time it began at and the mutations that had returned by then. -/
structure KeyCall where
  /-- `now`. -/
  now : Int
  /-- The indices of the mutations that had returned when the call began. -/
  after : List Nat
  /-- How far it has come. -/
  phase : CallPhase
  deriving DecidableEq

/-- The interleaved system: the tables, the cache slot, every committed mutation in order, every call
in the order it began. -/
structure KeyCacheState where
  /-- The tables. -/
  db : KeyDb
  /-- The cached set and `_cached_at`. -/
  cache : Option (ComputedSet × Int)
  /-- `time.monotonic()`. -/
  clock : Int
  /-- The committed mutations. -/
  mutations : List MutationRecord
  /-- The calls. -/
  calls : List KeyCall

/-- Nothing has happened yet. -/
def KeyCacheState.init (db : KeyDb) : KeyCacheState := ⟨db, none, 0, [], []⟩

namespace KeyCacheState

variable (s : KeyCacheState)

/-- The indices of the mutations that have returned. -/
def returnedMutations : List Nat :=
  (List.range s.mutations.length).filter fun i =>
    (s.mutations[i]?).any fun m => m.phase = .returned

/-- A call moves on. -/
def setPhase (c : Nat) (call : KeyCall) (phase : CallPhase) : KeyCacheState :=
  { s with calls := s.calls.set c { call with phase := phase } }

/-- A mutation moves on. -/
def setMutation (i : Nat) (m : MutationRecord) (phase : MutationPhase) : KeyCacheState :=
  { s with mutations := s.mutations.set i { m with phase := phase } }

end KeyCacheState

/-! ## Steps -/

/-- The steps. A read says whether the database answered; `loadEnv` what the environment's keys
parse to. -/
inductive KeyCacheLabel where
  | tick (d : Nat)
  | begin
  | check (c : Nat)
  | readKeys (c : Nat) (up : Bool)
  | readRoles (c : Nat) (up : Bool)
  | loadEnv (c : Nat) (env : Option EnvKeys)
  | store (c : Nat)
  | commit (m : KeyMutation)
  | invalidate (i : Nat)
  | return (i : Nat)

section Steps

variable (noise : EdgeNoise) (ttl : Int)

/-- Whether a cached set is served to a call of time `now`. -/
def servedAt (cachedAt now : Int) : Bool := ttl ≤ 0 || now - cachedAt < ttl

/-- **One step of the interleaved system.** -/
def keyCacheStep (s : KeyCacheState) : KeyCacheLabel → Option KeyCacheState
  | .tick d => some { s with clock := s.clock + d }
  | .begin => some { s with calls := s.calls ++ [⟨s.clock, s.returnedMutations, .begun⟩] }
  | .check c =>
    match s.calls[c]? with
    | some ⟨now, after, .begun⟩ =>
      match s.cache with
      | some (set, cachedAt) =>
        some (s.setPhase c ⟨now, after, .begun⟩
          (if servedAt ttl cachedAt now then .returned set else .missed))
      | none => some (s.setPhase c ⟨now, after, .begun⟩ .missed)
    | _ => none
  | .readKeys c up =>
    match s.calls[c]? with
    | some ⟨now, after, .missed⟩ =>
      some (s.setPhase c ⟨now, after, .missed⟩
        (if up then .keysRead s.mutations.length s.db.keys else .rowsRead [] .outage))
    | _ => none
  | .readRoles c up =>
    match s.calls[c]? with
    | some ⟨now, after, .keysRead keysAt rows⟩ =>
      some (s.setPhase c ⟨now, after, .keysRead keysAt rows⟩
        (if up then .rowsRead (joinRows rows s.db.roles) (.tables keysAt s.mutations.length)
        else .rowsRead [] .outage))
    | _ => none
  | .loadEnv c env =>
    match s.calls[c]? with
    | some ⟨now, after, .rowsRead rows readAt⟩ =>
      some (s.setPhase c ⟨now, after, .rowsRead rows readAt⟩
        (.merged ⟨mergePrincipals noise rows (envOrEmpty env), readAt⟩))
    | _ => none
  | .store c =>
    match s.calls[c]? with
    | some ⟨now, after, .merged set⟩ =>
      some { s.setPhase c ⟨now, after, .merged set⟩ (.returned set) with cache := some (set, now) }
    | _ => none
  | .commit m =>
    (m.apply noise s.db).map fun db =>
      { s with db := db, mutations := s.mutations ++ [⟨m, .committed⟩] }
  | .invalidate i =>
    match s.mutations[i]? with
    | some ⟨m, .committed⟩ =>
      some { s.setMutation i ⟨m, .committed⟩ .invalidated with cache := none }
    | _ => none
  | .return i =>
    match s.mutations[i]? with
    | some ⟨m, .invalidated⟩ => some (s.setMutation i ⟨m, .invalidated⟩ .returned)
    | _ => none

end Steps

/-! ## Coherence -/

/-- **Coherence**: a set a call returned misses no mutation that had returned before the call
began. -/
def Coherent (s : KeyCacheState) : Prop :=
  ∀ call ∈ s.calls, ∀ set, call.phase = .returned set → ∀ i ∈ call.after,
    ∀ m, s.mutations[i]? = some m → ¬ set.readAt.Misses i m.mutation.table

/-- A set misses no mutation that has got as far as clearing the cache. -/
def FreshSet (mutations : List MutationRecord) (set : ComputedSet) : Prop :=
  ∀ i < mutations.length, ∀ m, mutations[i]? = some m → m.phase ≠ .committed →
    ¬ set.readAt.Misses i m.mutation.table

/-- **The condition on a step**: a call stores its set only while no mutation that committed after
the call read its table has already cleared the cache. -/
def StoresFresh (s : KeyCacheState) : KeyCacheLabel → Prop
  | .store c =>
    match s.calls[c]? with
    | some ⟨_, _, .merged set⟩ => FreshSet s.mutations set
    | _ => True
  | _ => True

instance (mutations : List MutationRecord) (set : ComputedSet) :
    Decidable (FreshSet mutations set) := by
  unfold FreshSet
  infer_instance

instance (s : KeyCacheState) (l : KeyCacheLabel) : Decidable (StoresFresh s l) := by
  unfold StoresFresh
  split
  · split <;> infer_instance
  · infer_instance

/-! ## The invariant -/

/-- A read point misses none of the given mutations. -/
def ReadPoint.SeesAll (r : ReadPoint) (mutations : List MutationRecord) (after : List Nat) : Prop :=
  ∀ i ∈ after, ∀ m, mutations[i]? = some m → ¬ r.Misses i m.mutation.table

/-- What a call's phase owes the mutations that had returned before it began. -/
def CallPhase.Owes (mutations : List MutationRecord) (after : List Nat) : CallPhase → Prop
  | .begun | .missed => True
  | .keysRead keysAt _ => ∀ i ∈ after, i < keysAt
  | .rowsRead _ readAt => readAt.SeesAll mutations after
  | .merged set | .returned set => set.readAt.SeesAll mutations after

/-- A call is sound: the mutations it began after have returned, and its reads came later. -/
structure CallSound (mutations : List MutationRecord) (call : KeyCall) : Prop where
  /-- `after` lists returned mutations. -/
  returned : ∀ i ∈ call.after, ∃ m, mutations[i]? = some m ∧ m.phase = .returned
  /-- The phase's own part. -/
  owes : call.phase.Owes mutations call.after

/-- **The invariant of the interleaved system**: sound calls and a fresh cache. -/
structure KeyCacheInv (s : KeyCacheState) : Prop where
  /-- Every call is sound. -/
  calls : ∀ call ∈ s.calls, CallSound s.mutations call
  /-- The cached set misses no mutation that has cleared the cache. -/
  cache : ∀ p ∈ s.cache, FreshSet s.mutations p.1

/-- How the list of mutations grows: records stay in place, keep their mutation, and never leave the
returned phase. -/
def Evolves (ms ms' : List MutationRecord) : Prop :=
  ∀ (i : Nat) (m : MutationRecord), ms[i]? = some m → ∃ m' : MutationRecord, ms'[i]? = some m' ∧
    m'.mutation = m.mutation ∧ (m.phase = .returned → m'.phase = .returned)

theorem ReadPoint.SeesAll.evolves {r : ReadPoint} {ms ms' : List MutationRecord} {after : List Nat}
    (h : r.SeesAll ms after) (hms : Evolves ms ms') (hafter : ∀ i ∈ after, ∃ m, ms[i]? = some m) :
    r.SeesAll ms' after := by
  intro i hi m' hm'
  obtain ⟨m, hm⟩ := hafter i hi
  obtain ⟨m'', hm'', hsame, -⟩ := hms i m hm
  rw [hm'', Option.some.injEq] at hm'
  rw [← hm', hsame]
  exact h i hi m hm

/-- A call stays sound while mutations go on. -/
theorem CallSound.evolves {ms ms' : List MutationRecord} {call : KeyCall} (h : CallSound ms call)
    (hms : Evolves ms ms') : CallSound ms' call := by
  have hafter : ∀ i ∈ call.after, ∃ m, ms[i]? = some m := fun i hi =>
    (h.returned i hi).imp fun _ hm => hm.1
  refine ⟨fun i hi => ?_, ?_⟩
  · obtain ⟨m, hm, hphase⟩ := h.returned i hi
    obtain ⟨m', hm', -, hkeep⟩ := hms i m hm
    exact ⟨m', hm', hkeep hphase⟩
  · have howes := h.owes
    cases hphase : call.phase with
    | begun => trivial
    | missed => trivial
    | keysRead keysAt rows =>
      rw [hphase] at howes
      exact howes
    | rowsRead rows readAt =>
      rw [hphase] at howes
      exact ReadPoint.SeesAll.evolves howes hms hafter
    | merged set =>
      rw [hphase] at howes
      exact ReadPoint.SeesAll.evolves howes hms hafter
    | returned set =>
      rw [hphase] at howes
      exact ReadPoint.SeesAll.evolves howes hms hafter

theorem evolves_append (ms : List MutationRecord) (m : MutationRecord) : Evolves ms (ms ++ [m]) :=
  fun _ m' h => ⟨m', List.getElem?_append_left (List.getElem?_eq_some_iff.mp h).1 ▸ h, rfl, id⟩

/-- Moving a mutation on that has not returned yet. -/
theorem evolves_set {ms : List MutationRecord} {i : Nat} {m : MutationRecord}
    {phase : MutationPhase} (hi : ms[i]? = some m) (hm : m.phase ≠ .returned) :
    Evolves ms (ms.set i { m with phase := phase }) := by
  intro j m' hj
  have hlt := (List.getElem?_eq_some_iff.mp hi).1
  by_cases hij : i = j
  · subst hij
    rw [hi, Option.some.injEq] at hj
    subst hj
    exact ⟨_, List.getElem?_set_self hlt, rfl, fun h => absurd h hm⟩
  · exact ⟨m', by rw [List.getElem?_set_ne hij]; exact hj, rfl, id⟩

/-- A call moves on to a phase it can answer for. -/
theorem KeyCacheInv.setPhase {s : KeyCacheState} {c : Nat} {call : KeyCall} {p : CallPhase}
    (h : KeyCacheInv s) (hc : s.calls[c]? = some call)
    (howes : p.Owes s.mutations call.after) : KeyCacheInv (s.setPhase c call p) := by
  refine ⟨fun call' hcall' => ?_, h.cache⟩
  rcases List.mem_or_eq_of_mem_set hcall' with hmem | rfl
  · exact h.calls call' hmem
  · exact ⟨(h.calls call (List.mem_of_getElem? hc)).returned, howes⟩

theorem returnedMutations_spec {s : KeyCacheState} {i : Nat} (h : i ∈ s.returnedMutations) :
    ∃ m, s.mutations[i]? = some m ∧ m.phase = .returned := by
  obtain ⟨-, hret⟩ := List.mem_filter.mp h
  cases hm : s.mutations[i]? with
  | none => simp [hm] at hret
  | some m => exact ⟨m, rfl, by simpa [hm] using hret⟩

variable {noise : EdgeNoise} {ttl : Int}

/-- **The step lemma**: every step that stores only fresh sets keeps the invariant. -/
theorem keyCacheInv_step {s s' : KeyCacheState} {l : KeyCacheLabel} (h : KeyCacheInv s)
    (hfresh : StoresFresh s l) (hstep : keyCacheStep noise ttl s l = some s') : KeyCacheInv s' := by
  cases l with
  | tick d =>
    cases hstep
    exact ⟨h.calls, h.cache⟩
  | begin =>
    cases hstep
    refine ⟨fun call hcall => ?_, h.cache⟩
    rcases List.mem_append.mp hcall with hold | hnew
    · exact h.calls call hold
    · rw [List.mem_singleton] at hnew
      subst hnew
      exact ⟨fun i hi => returnedMutations_spec hi, trivial⟩
  | check c =>
    simp only [keyCacheStep] at hstep
    split at hstep
    · rename_i now after hc
      have hcall := h.calls _ (List.mem_of_getElem? hc)
      split at hstep
      · rename_i set cachedAt hcache
        cases hstep
        refine h.setPhase hc ?_
        split
        -- a hit: the mutations the call began after have cleared the cache since the set's reads
        · intro i hi m hm
          obtain ⟨m', hm', hphase⟩ := hcall.returned i hi
          rw [hm', Option.some.injEq] at hm
          subst hm
          exact h.cache (set, cachedAt) (by rw [hcache]; rfl) i
            (List.getElem?_eq_some_iff.mp hm').1 m' hm' (by rw [hphase]; nofun)
        · trivial
      · cases hstep
        exact h.setPhase hc trivial
    · cases hstep
  | readKeys c up =>
    simp only [keyCacheStep] at hstep
    split at hstep
    · rename_i now after hc
      cases hstep
      refine h.setPhase hc ?_
      cases up
      · exact fun i hi m hm => id
      · intro i hi
        obtain ⟨m, hm, -⟩ := (h.calls _ (List.mem_of_getElem? hc)).returned i hi
        exact (List.getElem?_eq_some_iff.mp hm).1
    · cases hstep
  | readRoles c up =>
    simp only [keyCacheStep] at hstep
    split at hstep
    · rename_i now after keysAt rows hc
      cases hstep
      have hcall := h.calls _ (List.mem_of_getElem? hc)
      refine h.setPhase hc ?_
      cases up
      · -- an outage read misses nothing: it falls back to the environment
        exact fun i hi m hm => id
      · intro i hi m hm hmiss
        have hkeys : i < keysAt := hcall.owes i hi
        have hroles : i < s.mutations.length := (List.getElem?_eq_some_iff.mp hm).1
        cases htable : m.mutation.table <;> simp only [ReadPoint.Misses, htable] at hmiss <;> omega
    · cases hstep
  | loadEnv c env =>
    simp only [keyCacheStep] at hstep
    split at hstep
    · rename_i now after rows readAt hc
      cases hstep
      exact h.setPhase hc (h.calls _ (List.mem_of_getElem? hc)).owes
    · cases hstep
  | store c =>
    simp only [keyCacheStep] at hstep
    split at hstep
    · rename_i now after set hc
      cases hstep
      have hinv := h.setPhase (p := .returned set) hc (h.calls _ (List.mem_of_getElem? hc)).owes
      refine ⟨hinv.calls, ?_⟩
      -- the cache now holds this set, which the condition says is fresh
      rintro p hp
      cases hp
      simp only [StoresFresh, hc] at hfresh
      exact hfresh
    · cases hstep
  | commit m =>
    obtain ⟨db, -, rfl⟩ := Option.map_eq_some_iff.mp hstep
    refine ⟨fun call hcall => (h.calls call hcall).evolves (evolves_append _ _), ?_⟩
    rintro p hp i hi m' hm' hphase
    rcases Pool.getElem?_append_singleton hm' with hold | ⟨-, rfl⟩
    · exact h.cache p hp i (List.getElem?_eq_some_iff.mp hold).1 m' hold hphase
    · -- the new mutation has cleared nothing yet
      exact absurd rfl hphase
  | invalidate i =>
    simp only [keyCacheStep] at hstep
    split at hstep
    · rename_i m hi
      cases hstep
      -- the cache is empty
      exact ⟨fun call hcall => (h.calls call hcall).evolves (evolves_set hi nofun), nofun⟩
    · cases hstep
  | «return» i =>
    simp only [keyCacheStep] at hstep
    split at hstep
    · rename_i m hi
      cases hstep
      refine ⟨fun call hcall => (h.calls call hcall).evolves (evolves_set hi nofun), ?_⟩
      rintro p hp j hj m' hm' hphase
      simp only [KeyCacheState.setMutation] at hj hm'
      rw [List.length_set] at hj
      by_cases hij : i = j
      · -- it had cleared the cache before it returned
        subst hij
        rw [List.getElem?_set_self hj, Option.some.injEq] at hm'
        subst hm'
        exact h.cache p hp i hj ⟨m, .invalidated⟩ hi nofun
      · rw [List.getElem?_set_ne hij] at hm'
        exact h.cache p hp j hj m' hm' hphase
    · cases hstep

/-- **Coherence over whole runs**: from any tables, in every run whose stores are all fresh, every
set a call has returned shows each mutation that had returned before the call began. -/
theorem coherent_of_runWhere_storesFresh {db : KeyDb} {labels : List KeyCacheLabel}
    {s : KeyCacheState}
    (h : RunWhere (keyCacheStep noise ttl) StoresFresh (.init db) labels s) : Coherent s := by
  have hinv : KeyCacheInv s :=
    h.invariant ⟨nofun, nofun⟩ fun _ _ _ hI hP hstep => keyCacheInv_step hI hP hstep
  intro call hcall set hphase i hi m hm
  have howes := (hinv.calls call hcall).owes
  rw [hphase] at howes
  exact howes i hi m hm

/-! ## What a read point stands for -/

/-- The committed mutations, in order. -/
def KeyCacheState.history (s : KeyCacheState) : List KeyMutation := s.mutations.map (·.mutation)

/-- The tables after some mutations. -/
def dbAfter (noise : EdgeNoise) (db : KeyDb) (ms : List KeyMutation) : Option KeyDb :=
  ms.foldlM (fun db m => m.apply noise db) db

/-- **A set is computed at its read point**: from the key rows after the mutations its key read came
after and the role rows after those its role read came after, or, in an outage, from the environment
alone. -/
def ComputedSet.ComputedFrom (noise : EdgeNoise) (db : KeyDb) (history : List KeyMutation)
    (set : ComputedSet) : Prop :=
  ∃ env, match set.readAt with
    | .outage => set.principals = env
    | .tables keysAt rolesAt => keysAt ≤ history.length ∧ rolesAt ≤ history.length ∧
        ∃ dk dr, dbAfter noise db (history.take keysAt) = some dk ∧
          dbAfter noise db (history.take rolesAt) = some dr ∧
          set.principals = mergePrincipals noise (joinRows dk.keys dr.roles) env

/-- What a call holds so far comes from its read points. -/
def CallPhase.Traced (noise : EdgeNoise) (db : KeyDb) (history : List KeyMutation) :
    CallPhase → Prop
  | .begun | .missed => True
  | .keysRead keysAt rows => keysAt ≤ history.length ∧
      ∃ dk, dbAfter noise db (history.take keysAt) = some dk ∧ rows = dk.keys
  | .rowsRead rows readAt => ∀ env,
      ComputedSet.ComputedFrom noise db history ⟨mergePrincipals noise rows env, readAt⟩
  | .merged set | .returned set => set.ComputedFrom noise db history

/-- Every set in the system is computed at its read point. -/
structure KeyCacheTraced (noise : EdgeNoise) (db : KeyDb) (s : KeyCacheState) : Prop where
  /-- The tables are those after the whole history. -/
  tables : dbAfter noise db s.history = some s.db
  /-- The calls' sets and rows. -/
  calls : ∀ call ∈ s.calls, call.phase.Traced noise db s.history
  /-- The cached set. -/
  cache : ∀ p ∈ s.cache, p.1.ComputedFrom noise db s.history

theorem ComputedSet.ComputedFrom.append {db : KeyDb} {history : List KeyMutation}
    {set : ComputedSet} (h : set.ComputedFrom noise db history) (m : KeyMutation) :
    set.ComputedFrom noise db (history ++ [m]) := by
  obtain ⟨env, h⟩ := h
  refine ⟨env, ?_⟩
  split
  · rename_i hread
    rwa [hread] at h
  · rename_i keysAt rolesAt hread
    rw [hread] at h
    obtain ⟨hkeys, hroles, dk, dr, hdk, hdr, hset⟩ := h
    rw [List.take_append_of_le_length hkeys, List.take_append_of_le_length hroles,
      List.length_append]
    exact ⟨Nat.le_add_right_of_le hkeys, Nat.le_add_right_of_le hroles, dk, dr, hdk, hdr, hset⟩

theorem CallPhase.Traced.append {db : KeyDb} {history : List KeyMutation} {phase : CallPhase}
    (h : phase.Traced noise db history) (m : KeyMutation) :
    phase.Traced noise db (history ++ [m]) := by
  cases phase with
  | begun => trivial
  | missed => trivial
  | keysRead keysAt rows =>
    obtain ⟨hle, hrows⟩ := h
    refine ⟨?_, ?_⟩
    · rw [List.length_append]
      exact Nat.le_add_right_of_le hle
    · rwa [List.take_append_of_le_length hle]
  | rowsRead rows readAt => exact fun env => (h env).append m
  | merged set => exact ComputedSet.ComputedFrom.append h m
  | returned set => exact ComputedSet.ComputedFrom.append h m

theorem history_setMutation {s : KeyCacheState} {i : Nat} {m : MutationRecord}
    {phase : MutationPhase} (hi : s.mutations[i]? = some m) :
    (s.setMutation i m phase).history = s.history := by
  have hget : (s.mutations.map (·.mutation))[i]? = some m.mutation := by
    rw [List.getElem?_map, hi, Option.map_some]
  obtain ⟨hlt, hsame⟩ := List.getElem?_eq_some_iff.mp hget
  rw [KeyCacheState.history, KeyCacheState.setMutation, List.map_set, KeyCacheState.history]
  simp only [← hsame, List.set_getElem_self]

/-- Tracing looks at the tables, the history, the calls and the cache only. -/
theorem KeyCacheTraced.congr {db : KeyDb} {s s' : KeyCacheState} (h : KeyCacheTraced noise db s)
    (hdb : s'.db = s.db) (hhistory : s'.history = s.history) (hcalls : s'.calls = s.calls)
    (hcache : ∀ p ∈ s'.cache, p ∈ s.cache) : KeyCacheTraced noise db s' := by
  refine ⟨?_, ?_, ?_⟩
  · rw [hhistory, hdb]
    exact h.tables
  · rw [hhistory, hcalls]
    exact h.calls
  · rw [hhistory]
    exact fun p hp => h.cache p (hcache p hp)

theorem KeyCacheTraced.setPhase {db : KeyDb} {s : KeyCacheState} {c : Nat} {k : KeyCall}
    {p : CallPhase} (h : KeyCacheTraced noise db s)
    (hphase : p.Traced noise db s.history) :
    KeyCacheTraced noise db (s.setPhase c k p) := by
  refine ⟨h.tables, fun call' hcall' => ?_, h.cache⟩
  rcases List.mem_or_eq_of_mem_set hcall' with hmem | rfl
  · exact h.calls call' hmem
  · exact hphase

/-- A read of the tables now is a read after the whole history. -/
theorem KeyCacheTraced.read_now {db : KeyDb} {s : KeyCacheState} (h : KeyCacheTraced noise db s) :
    dbAfter noise db (s.history.take s.mutations.length) = some s.db := by
  have hlen : s.mutations.length = s.history.length := by rw [KeyCacheState.history, List.length_map]
  rw [hlen, List.take_length]
  exact h.tables

theorem keyCacheTraced_step {db : KeyDb} {s s' : KeyCacheState} {l : KeyCacheLabel}
    (h : KeyCacheTraced noise db s) (hstep : keyCacheStep noise ttl s l = some s') :
    KeyCacheTraced noise db s' := by
  have hlen : s.history.length = s.mutations.length := by rw [KeyCacheState.history, List.length_map]
  cases l with
  | tick d =>
    cases hstep
    exact ⟨h.tables, h.calls, h.cache⟩
  | begin =>
    cases hstep
    refine ⟨h.tables, fun call hcall => ?_, h.cache⟩
    rcases List.mem_append.mp hcall with hold | hnew
    · exact h.calls call hold
    · rw [List.mem_singleton] at hnew
      subst hnew
      trivial
  | check c =>
    simp only [keyCacheStep] at hstep
    split at hstep
    · split at hstep
      · rename_i set cachedAt hcache
        cases hstep
        refine h.setPhase ?_
        split
        · exact h.cache (set, cachedAt) (by rw [hcache]; rfl)
        · trivial
      · cases hstep
        exact h.setPhase trivial
    · cases hstep
  | readKeys c up =>
    simp only [keyCacheStep] at hstep
    split at hstep
    · cases hstep
      refine h.setPhase ?_
      cases up
      · exact fun env => ⟨_, rfl⟩
      · exact ⟨hlen.ge, s.db, h.read_now, rfl⟩
    · cases hstep
  | readRoles c up =>
    simp only [keyCacheStep] at hstep
    split at hstep
    · rename_i now after keysAt rows hc
      cases hstep
      obtain ⟨hle, dk, hdk, hrows⟩ := h.calls _ (List.mem_of_getElem? hc)
      refine h.setPhase ?_
      cases up
      · exact fun env => ⟨_, rfl⟩
      · -- the key rows of one read point, the role rows of a later one
        exact fun env => ⟨env, hle, hlen.ge, dk, s.db, hdk, h.read_now, by rw [hrows]⟩
    · cases hstep
  | loadEnv c env =>
    simp only [keyCacheStep] at hstep
    split at hstep
    · rename_i now after rows readAt hc
      cases hstep
      exact h.setPhase (h.calls _ (List.mem_of_getElem? hc) (envOrEmpty env))
    · cases hstep
  | store c =>
    simp only [keyCacheStep] at hstep
    split at hstep
    · rename_i now after set hc
      cases hstep
      have hset := h.calls _ (List.mem_of_getElem? hc)
      have htraced := h.setPhase (c := c) (k := ⟨now, after, .merged set⟩) (p := .returned set) hset
      refine ⟨htraced.tables, htraced.calls, ?_⟩
      rintro p hp
      cases hp
      exact hset
    · cases hstep
  | commit m =>
    obtain ⟨db', hdb', rfl⟩ := Option.map_eq_some_iff.mp hstep
    have hhist : (s.mutations ++ [(⟨m, .committed⟩ : MutationRecord)]).map (·.mutation) =
        s.history ++ [m] := by
      rw [List.map_append]
      rfl
    refine ⟨?_, fun call hcall => ?_, fun p hp => ?_⟩
    · have htables := h.tables
      rw [dbAfter] at htables
      rw [KeyCacheState.history, hhist, dbAfter, List.foldlM_append, htables]
      simpa using hdb'
    · rw [KeyCacheState.history, hhist]
      exact (h.calls call hcall).append m
    · rw [KeyCacheState.history, hhist]
      exact (h.cache p hp).append m
  | invalidate i =>
    simp only [keyCacheStep] at hstep
    split at hstep
    · rename_i m hi
      cases hstep
      exact h.congr rfl (history_setMutation hi) rfl nofun
    · cases hstep
  | «return» i =>
    simp only [keyCacheStep] at hstep
    split at hstep
    · rename_i m hi
      cases hstep
      exact h.congr rfl (history_setMutation hi) rfl fun _ hp => hp
    · cases hstep

/-- **A returned set is what its read point says**, in every run. -/
theorem computedFrom_of_run {db : KeyDb} {labels : List KeyCacheLabel} {s : KeyCacheState}
    (h : run (keyCacheStep noise ttl) (.init db) labels = some s) {call : KeyCall}
    (hcall : call ∈ s.calls) {set : ComputedSet} (hset : call.phase = .returned set) :
    set.ComputedFrom noise db s.history := by
  have htraced : KeyCacheTraced noise db s :=
    (run_eq_some_iff.mp h).invariant (I := KeyCacheTraced noise db) ⟨rfl, nofun, nofun⟩
      fun _ _ _ hI _ hstep => keyCacheTraced_step hI hstep
  have hcalls := htraced.calls call hcall
  rw [hset] at hcalls
  exact hcalls

/-! ## A revocation lost in a race -/

/-- A call reads the rows; the key is revoked and the revocation returns; only then does the call
store its set. -/
def storeAfterRevocation : List KeyCacheLabel :=
  [.begin, .check 0, .readKeys 0 true, .readRoles 0 true, .loadEnv 0 none,
   .commit (.revokeKey "h1" "t0"), .invalidate 0, .return 0, .store 0, .begin, .check 1]

/-- **The revoked key is served again**: a call that begins after the revocation has returned finds
the stale set in the cache. -/
theorem storeAfterRevocation_not_coherent :
    ∃ s, run (keyCacheStep (fun _ => false) 5) (.init analystDb) storeAfterRevocation = some s ∧
      ¬ Coherent s ∧
      ∃ set, (s.calls[1]?).map (·.phase) = some (.returned set) ∧
        "h1" ∈ set.principals.map (·.1) := by
  refine ⟨_, rfl, fun h => ?_, _, rfl, by decide⟩
  exact h _ (List.mem_of_getElem? (i := 1) rfl) _ rfl 0 (by decide) _ rfl (by decide)

/-- The same calls with the store before the revocation: the second call reads the tables again. -/
def storeBeforeRevocation : List KeyCacheLabel :=
  [.begin, .check 0, .readKeys 0 true, .readRoles 0 true, .loadEnv 0 none, .store 0,
   .commit (.revokeKey "h1" "t0"), .invalidate 0, .return 0, .begin, .check 1, .readKeys 1 true,
   .readRoles 1 true, .loadEnv 1 none, .store 1]

theorem storeBeforeRevocation_coherent :
    ∃ s, RunWhere (keyCacheStep (fun _ => false) 5) StoresFresh (.init analystDb)
      storeBeforeRevocation s ∧ Coherent s :=
  have hrun : RunWhere (keyCacheStep (fun _ => false) 5) StoresFresh (.init analystDb)
      storeBeforeRevocation _ := runWhere_sound rfl
  ⟨_, hrun, coherent_of_runWhere_storesFresh hrun⟩

end LocalSqlAgent
