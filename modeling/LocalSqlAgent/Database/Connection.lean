import LocalSqlAgent.Lib.OrderedDict
import LocalSqlAgent.Lib.Pool
import LocalSqlAgent.Lib.Transition

/-! # One engine per data source

`get_engine`, `dispose_engine` and `get_engine.cache_clear` of `database.connection`: engines are built on
first use, under a lock that is taken only when a first look at the dictionary found none, and taken out
again by whoever clears it. Any number of calls are in flight; each of their reads and writes of the
dictionary and each taking and giving back of the lock is a step of its own.

* **`callStep`**: one step of one call on what the calls share.
* **`engineStep`**: one step of one of the calls in flight.
* **`engines_of_run`**: in every interleaving, no source gets two engines between two clearings, every engine
  is in one place, and a call returns an engine that was built for its own source and was in the
  dictionary while the call ran. -/

namespace LocalSqlAgent

namespace EngineCache

/-! ## What the calls share -/

/-- An engine, by the place of its building among all. -/
abbrev Engine := ℕ

/-- The module's globals, and what became of the engines. -/
structure Shared where
  /-- `_engines`. -/
  engines : OrderedDict String Engine
  /-- `_engines_lock`. -/
  locked : Bool
  /-- How often the dictionary was cleared. -/
  clearings : ℕ
  /-- The engines built: the name of the source, and how often the dictionary had been cleared. -/
  built : List (String × ℕ)
  /-- The engines whose `dispose` returned or raised, in order. -/
  disposed : List Engine
  /-- The engines no one will dispose: forgotten, or left over when another one's `dispose` raised. -/
  dropped : List Engine
  deriving DecidableEq

/-- `list(_engines.values())`. -/
def Shared.values (s : Shared) : List Engine := s.engines.entries.map (·.2)

/-! ## Calls -/

/-- The three operations. -/
inductive Operation where
  /-- `get_engine`, the name already resolved. -/
  | get (name : String)
  /-- `dispose_engine`. -/
  | dispose
  /-- `_clear_engine_cache`. -/
  | forget
  deriving DecidableEq, Repr

/-- `datasource or default_datasource_name()`. -/
def getEngine (datasource : Option String) (defaultName : String) : Operation :=
  match datasource with
  | some name => .get (if name = "" then defaultName else name)
  | none => .get defaultName

/-- Asked for by name, the default source has the engine it has without one. -/
theorem getEngine_default (name : String) : getEngine (some name) name = getEngine none name := by
  simp only [getEngine, ite_self]

/-- Where a call stands: what it does next. -/
inductive Phase where
  /-- The first look at the dictionary, without the lock. -/
  | reading
  /-- Taking the lock. -/
  | waiting
  /-- The second look. -/
  | rereading
  /-- `_build_engine`. -/
  | building
  /-- `_engines[name] = engine`. -/
  | storing (engine : Engine)
  /-- The end of the `with` block, an engine in hand. -/
  | leaving (engine : Engine)
  /-- `list(_engines.values())`. -/
  | listing
  /-- `_engines.clear()`, the listed engines in hand. -/
  | clearing (engines : List Engine)
  /-- The end of the `with` block, the dictionary cleared. -/
  | unlocking (engines : List Engine)
  /-- The loop that disposes what was listed; over when nothing is left. -/
  | disposing (engines : List Engine)
  /-- Over, with an engine. -/
  | returned (engine : Engine)
  /-- Over, with an exception. -/
  | raised
  deriving DecidableEq, Repr

/-- A call. -/
structure Call where
  operation : Operation
  phase : Phase
  /-- How often the dictionary had been cleared when it was made. -/
  begun : ℕ
  deriving DecidableEq, Repr

/-- What an operation does first. -/
def Operation.first : Operation → Phase
  | .get _ => .reading
  | .dispose => .waiting
  | .forget => .waiting

/-- What it does once it has the lock. -/
def Operation.locked : Operation → Phase
  | .get _ => .rereading
  | .dispose => .listing
  | .forget => .clearing []

/-- The phases between taking the lock and giving it back. -/
def Phase.critical : Phase → Bool
  | .rereading | .building | .storing _ | .leaving _ | .listing | .clearing _ | .unlocking _ => true
  | .reading | .waiting | .disposing _ | .returned _ | .raised => false

/-- The call is inside the `with` block. -/
def Call.critical (c : Call) : Bool := c.phase.critical

/-- The engines a call has and the dictionary has not. -/
def Phase.owns : Phase → List Engine
  | .storing engine => [engine]
  | .unlocking engines | .disposing engines => engines
  | _ => []

/-- The engines only the call has. -/
def Call.owns (c : Call) : List Engine := c.phase.owns

/-- The call is over. -/
def Call.ended (c : Call) : Bool :=
  match c.phase with
  | .disposing [] | .returned _ | .raised => true
  | _ => false

/-! ## Steps -/

/-- How `_build_engine` or `Engine.dispose` goes; nothing else can fail. -/
inductive Outcome where
  | returns
  | raises
  deriving DecidableEq, Repr

/-- **One step of one call**, `none` when it has to wait, is over, or cannot go that way. -/
def callStep (s : Shared) (c : Call) (outcome : Outcome) : Option (Shared × Call) :=
  match c.operation, c.phase, outcome with
  | .get name, .reading, .returns =>
    match s.engines.lookup name with
    | some engine => some (s, { c with phase := .returned engine })
    | none => some (s, { c with phase := .waiting })
  | operation, .waiting, .returns =>
    if s.locked then none else some ({ s with locked := true }, { c with phase := operation.locked })
  | .get name, .rereading, .returns =>
    match s.engines.lookup name with
    | some engine => some (s, { c with phase := .leaving engine })
    | none => some (s, { c with phase := .building })
  | .get name, .building, .returns =>
    some ({ s with built := s.built ++ [(name, s.clearings)] }, { c with phase := .storing s.built.length })
  | .get _, .building, .raises => some ({ s with locked := false }, { c with phase := .raised })
  | .get name, .storing engine, .returns =>
    some ({ s with engines := s.engines.assign name engine }, { c with phase := .leaving engine })
  | .get _, .leaving engine, .returns => some ({ s with locked := false }, { c with phase := .returned engine })
  | .dispose, .listing, .returns => some (s, { c with phase := .clearing s.values })
  | .dispose, .clearing engines, .returns =>
    some ({ s with engines := ∅, clearings := s.clearings + 1 }, { c with phase := .unlocking engines })
  | .forget, .clearing _, .returns =>
    some ({ s with engines := ∅, clearings := s.clearings + 1, dropped := s.dropped ++ s.values },
      { c with phase := .unlocking [] })
  | _, .unlocking engines, .returns => some ({ s with locked := false }, { c with phase := .disposing engines })
  | _, .disposing (engine :: engines), .returns =>
    some ({ s with disposed := s.disposed ++ [engine] }, { c with phase := .disposing engines })
  | _, .disposing (engine :: engines), .raises =>
    -- the exception ends the loop
    some ({ s with disposed := s.disposed ++ [engine], dropped := s.dropped ++ engines },
      { c with phase := .raised })
  | _, _, _ => none

/-- The process. -/
structure State where
  shared : Shared
  /-- The calls, in the order they were made. -/
  calls : List Call

/-- Before the first call. -/
def State.init : State := ⟨⟨∅, false, 0, [], [], []⟩, []⟩

/-- What happens next. -/
inductive Step where
  /-- A call is made. -/
  | call (operation : Operation)
  /-- The call at an index takes its next step. -/
  | go (i : ℕ) (outcome : Outcome)
  deriving DecidableEq, Repr

/-- **One step.** -/
def engineStep (s : State) : Step → Option State
  | .call operation =>
    some { s with calls := s.calls ++ [⟨operation, operation.first, s.shared.clearings⟩] }
  | .go i outcome =>
    (s.calls[i]?).bind fun c =>
      (callStep s.shared c outcome).map fun (shared, c') => ⟨shared, s.calls.set i c'⟩

/-- **What a step is**: a new call, or the step of one call on what is shared. -/
theorem engineStep_cases {s s' : State} {l : Step} (h : engineStep s l = some s') :
    (∃ operation, l = .call operation ∧
      s' = { s with calls := s.calls ++ [⟨operation, operation.first, s.shared.clearings⟩] }) ∨
    ∃ i outcome c shared c', l = .go i outcome ∧ s.calls[i]? = some c ∧
      callStep s.shared c outcome = some (shared, c') ∧ s' = ⟨shared, s.calls.set i c'⟩ := by
  cases l with
  | call operation => exact .inl ⟨operation, rfl, (Option.some_inj.mp h).symm⟩
  | go i outcome =>
    obtain ⟨c, hc, hstep⟩ := Option.bind_eq_some_iff.mp h
    obtain ⟨⟨shared, c'⟩, hcall, rfl⟩ := Option.map_eq_some_iff.mp hstep
    exact .inr ⟨i, outcome, c, shared, c', rfl, hc, hcall, rfl⟩

/-- **What a call can do**, step by step. -/
inductive Moves (s : Shared) (begun : ℕ) : Operation → Phase → Shared → Phase → Prop
  | found {name : String} {engine : Engine} (h : s.engines.lookup name = some engine) :
      Moves s begun (.get name) .reading s (.returned engine)
  | missed {name : String} (h : s.engines.lookup name = none) : Moves s begun (.get name) .reading s .waiting
  | locks {operation : Operation} (h : s.locked = false) :
      Moves s begun operation .waiting { s with locked := true } operation.locked
  | refound {name : String} {engine : Engine} (h : s.engines.lookup name = some engine) :
      Moves s begun (.get name) .rereading s (.leaving engine)
  | absent {name : String} (h : s.engines.lookup name = none) :
      Moves s begun (.get name) .rereading s .building
  | builds {name : String} :
      Moves s begun (.get name) .building { s with built := s.built ++ [(name, s.clearings)] }
        (.storing s.built.length)
  | buildFails {name : String} : Moves s begun (.get name) .building { s with locked := false } .raised
  | stores {name : String} {engine : Engine} :
      Moves s begun (.get name) (.storing engine) { s with engines := s.engines.assign name engine }
        (.leaving engine)
  | leaves {name : String} {engine : Engine} :
      Moves s begun (.get name) (.leaving engine) { s with locked := false } (.returned engine)
  | lists : Moves s begun .dispose .listing s (.clearing s.values)
  | clears {engines : List Engine} :
      Moves s begun .dispose (.clearing engines) { s with engines := ∅, clearings := s.clearings + 1 }
        (.unlocking engines)
  | forgets {engines : List Engine} :
      Moves s begun .forget (.clearing engines)
        { s with engines := ∅, clearings := s.clearings + 1, dropped := s.dropped ++ s.values } (.unlocking [])
  | unlocks {operation : Operation} {engines : List Engine} :
      Moves s begun operation (.unlocking engines) { s with locked := false } (.disposing engines)
  | disposes {operation : Operation} {engine : Engine} {engines : List Engine} :
      Moves s begun operation (.disposing (engine :: engines)) { s with disposed := s.disposed ++ [engine] }
        (.disposing engines)
  | disposeFails {operation : Operation} {engine : Engine} {engines : List Engine} :
      Moves s begun operation (.disposing (engine :: engines))
        { s with disposed := s.disposed ++ [engine], dropped := s.dropped ++ engines } .raised

/-- A step of a call keeps its operation and is one of these. -/
theorem moves_of_callStep {s s' : Shared} {c c' : Call} {outcome : Outcome}
    (h : callStep s c outcome = some (s', c')) :
    c'.operation = c.operation ∧ c'.begun = c.begun ∧ Moves s c.begun c.operation c.phase s' c'.phase := by
  obtain ⟨operation, phase, begun⟩ := c
  unfold callStep at h
  dsimp only at h
  split at h
  · split at h
    · cases h
      exact ⟨rfl, rfl, .found ‹_›⟩
    · cases h
      exact ⟨rfl, rfl, .missed ‹_›⟩
  · split at h
    · cases h
    · cases h
      exact ⟨rfl, rfl, .locks (Bool.not_eq_true _ ▸ ‹_›)⟩
  · split at h
    · cases h
      exact ⟨rfl, rfl, .refound ‹_›⟩
    · cases h
      exact ⟨rfl, rfl, .absent ‹_›⟩
  · cases h
    exact ⟨rfl, rfl, .builds⟩
  · cases h
    exact ⟨rfl, rfl, .buildFails⟩
  · cases h
    exact ⟨rfl, rfl, .stores⟩
  · cases h
    exact ⟨rfl, rfl, .leaves⟩
  · cases h
    exact ⟨rfl, rfl, .lists⟩
  · cases h
    exact ⟨rfl, rfl, .clears⟩
  · cases h
    exact ⟨rfl, rfl, .forgets⟩
  · cases h
    exact ⟨rfl, rfl, .unlocks⟩
  · cases h
    exact ⟨rfl, rfl, .disposes⟩
  · cases h
    exact ⟨rfl, rfl, .disposeFails⟩
  · cases h

/-! ## What one step of one call changes -/

section Moves

variable {s s' : Shared} {begun : ℕ} {operation : Operation} {phase phase' : Phase} {engine : ℕ}

theorem critical_locked (operation : Operation) : operation.locked.critical = true := by
  cases operation <;> rfl

theorem owns_locked (operation : Operation) : operation.locked.owns = [] := by
  cases operation <;> rfl

/-- **The lock** is taken by who enters the block and given back by who leaves it. -/
theorem Moves.lock (h : Moves s begun operation phase s' phase') (hlock : phase.critical = true → s.locked = true) :
    (if phase'.critical then 1 else 0) + (if s.locked then 1 else 0) =
      (if phase.critical then 1 else 0) + if s'.locked then 1 else 0 := by
  cases h with
  | locks h => rw [critical_locked, h, if_neg (by decide : ¬ Phase.waiting.critical = true)]; rfl
  | buildFails | leaves | unlocks => simp [hlock rfl, Phase.critical]
  | _ => simp [Phase.critical]

/-- The number of clearings does not fall. -/
theorem Moves.clearings_le (h : Moves s begun operation phase s' phase') : s.clearings ≤ s'.clearings := by
  cases h <;> first | exact le_refl _ | exact Nat.le_succ _

/-- An engine built stays the engine it is. -/
theorem Moves.built_eq (h : Moves s begun operation phase s' phase') {p : String × ℕ}
    (hp : s.built[engine]? = some p) : s'.built[engine]? = some p := by
  cases h with
  | builds => exact List.getElem?_append_left (List.getElem?_eq_some_iff.mp hp).1 ▸ hp
  | _ => exact hp

/-- **Outside the block** nothing is done to the dictionary, and nothing is built. -/
theorem Moves.outside (h : Moves s begun operation phase s' phase') (hout : phase.critical = false) :
    s'.engines = s.engines ∧ s'.clearings = s.clearings ∧ s'.built = s.built := by
  cases h with
  | found | missed | locks | disposes | disposeFails => exact ⟨rfl, rfl, rfl⟩
  | _ => cases hout

/-- What a call knows of the dictionary where it stands, and where a call of its operation can stand. -/
def Fits (s : Shared) (begun : ℕ) (operation : Operation) (phase : Phase) : Prop :=
  match operation, phase with
  | .get _, .reading | .get _, .waiting | .get _, .rereading | .get _, .raised => True
  | .get name, .building => s.engines.lookup name = none
  | .get name, .storing engine =>
    s.engines.lookup name = none ∧ s.built[engine]? = some (name, s.clearings)
  | .get name, .leaving engine => s.engines.lookup name = some engine
  | .get name, .returned engine => ∃ clearings, begun ≤ clearings ∧ s.built[engine]? = some (name, clearings)
  | .dispose, .waiting | .dispose, .listing | .dispose, .unlocking _ | .dispose, .disposing _
  | .dispose, .raised => True
  | .dispose, .clearing engines => engines = s.values
  | .forget, .waiting | .forget, .clearing _ => True
  | .forget, .unlocking engines | .forget, .disposing engines => engines = []
  | _, _ => False

/-- Every engine of the dictionary was built for its source since the last clearing. -/
def Shared.Known (s : Shared) : Prop :=
  ∀ name engine, s.engines.lookup name = some engine → s.built[engine]? = some (name, s.clearings)

/-- **A call knows what it does**: its step leads to where it knows what it needs. -/
theorem Moves.fits (h : Moves s begun operation phase s' phase') (hknown : s.Known) (hbegun : begun ≤ s.clearings)
    (hfits : Fits s begun operation phase) : Fits s' begun operation phase' := by
  cases h with
  | found h => exact ⟨s.clearings, hbegun, hknown _ _ h⟩
  | refound h => exact h
  | absent h => exact h
  | builds =>
    refine ⟨hfits, ?_⟩
    rw [List.getElem?_append_right (le_refl _), Nat.sub_self]
    rfl
  | stores => exact OrderedDict.lookup_assign_self _ _ _
  | leaves => exact ⟨s.clearings, hbegun, hknown _ _ hfits⟩
  | lists => rfl
  | @locks operation _ => cases operation <;> trivial
  | @unlocks operation _ => cases operation <;> exact hfits
  | @disposes operation _ _ =>
    cases operation with
    | get => exact hfits
    | dispose => trivial
    | forget => cases hfits
  | @disposeFails operation _ _ =>
    cases operation with
    | get | dispose => trivial
    | forget => cases hfits
  | missed | buildFails | clears => trivial
  | forgets => rfl

/-- **What another call knows** is not touched by a step, unless both are inside the block. -/
theorem Moves.fits_other (h : Moves s begun operation phase s' phase') {begun₁ : ℕ} {operation₁ : Operation}
    {phase₁ : Phase} (hfits : Fits s begun₁ operation₁ phase₁)
    (hout : phase.critical = false ∨ phase₁.critical = false) : Fits s' begun₁ operation₁ phase₁ := by
  rcases hout with hout | hout
  · obtain ⟨hengines, hclearings, hbuilt⟩ := h.outside hout
    have hvalues : s'.values = s.values := by rw [Shared.values, hengines, Shared.values]
    unfold Fits at hfits ⊢
    rw [hengines, hclearings, hbuilt, hvalues]
    exact hfits
  · cases operation₁ with
    | get name =>
      cases phase₁ with
      | returned engine =>
        obtain ⟨clearings, hle, hbuilt⟩ := hfits
        exact ⟨clearings, hle, h.built_eq hbuilt⟩
      | building | storing | leaving => cases hout
      | _ => exact hfits
    | dispose =>
      cases phase₁ with
      | clearing => cases hout
      | _ => exact hfits
    | forget => cases phase₁ <;> exact hfits

/-- The dictionary holds what was built for it. -/
theorem Moves.known (h : Moves s begun operation phase s' phase') (hknown : s.Known)
    (hfits : Fits s begun operation phase) : s'.Known := by
  cases h with
  | builds =>
    intro name engine hlookup
    have hbuilt := hknown name engine hlookup
    exact (List.getElem?_append_left (List.getElem?_eq_some_iff.mp hbuilt).1).trans hbuilt
  | @stores name engine =>
    intro name' engine' hlookup
    by_cases hname : name' = name
    · subst hname
      rw [OrderedDict.lookup_assign_self] at hlookup
      cases hlookup
      exact hfits.2
    · rw [OrderedDict.lookup_assign_of_ne _ _ hname] at hlookup
      exact hknown name' engine' hlookup
  | clears | forgets =>
    intro name engine hlookup
    cases hlookup
  | _ => exact hknown

/-- Where an engine can be besides in the hands of a call. -/
def Shared.places (s : Shared) : List Engine := s.values ++ s.disposed ++ s.dropped

/-- A new name's engine joins the others of the dictionary. -/
theorem values_assign {s : Shared} {name : String} {engine : Engine} (h : s.engines.lookup name = none) :
    ((s.engines.assign name engine).entries.map (·.2)) = s.values ++ [engine] := by
  have hnot : name ∉ s.engines.entries.keys := List.dlookup_eq_none.mp h
  show (OrderedDict.assignEntry name engine s.engines.entries).map (·.2) = _
  rw [OrderedDict.assignEntry_of_notMem engine hnot, List.map_append]
  rfl

/-- **No engine is lost or doubled** by a step of a call: it changes hands. -/
theorem Moves.places (h : Moves s begun operation phase s' phase') (hfits : Fits s begun operation phase)
    (e : ℕ) :
    s'.places.count e + phase'.owns.count e + (if e < s.built.length then 1 else 0) =
      s.places.count e + phase.owns.count e + if e < s'.built.length then 1 else 0 := by
  cases h with
  | @locks operation _ =>
    rw [owns_locked]
    rfl
  | builds =>
    simp only [Shared.places, Shared.values, Phase.owns, List.length_append, List.length_singleton,
      List.count_singleton, List.count_nil, beq_iff_eq]
    split_ifs <;> omega
  | @stores name engine =>
    have hvalues : (Shared.values { s with engines := s.engines.assign name engine }) = s.values ++ [engine] :=
      values_assign hfits.1
    simp only [Shared.places, hvalues, Phase.owns, List.count_append, List.count_nil]
    omega
  | @clears engines =>
    obtain rfl : engines = s.values := hfits
    have hvalues : Shared.values { s with engines := ∅, clearings := s.clearings + 1 } = [] := rfl
    simp only [Shared.places, hvalues, Phase.owns, List.count_append, List.count_nil]
    omega
  | forgets =>
    have hvalues : Shared.values
      { s with engines := ∅, clearings := s.clearings + 1, dropped := s.dropped ++ s.values } = [] := rfl
    simp only [Shared.places, hvalues, Phase.owns, List.count_append, List.count_nil]
    omega
  | disposes | disposeFails =>
    simp only [Shared.places, Shared.values, Phase.owns, List.count_append, List.count_cons, List.count_nil]
    omega
  | _ => simp [Shared.places, Shared.values, Phase.owns]

/-- **An engine built since the last clearing** is in the dictionary or about to be, or was not before. -/
theorem Moves.current (h : Moves s begun operation phase s' phase') (hfits : Fits s begun operation phase)
    (hpast : ∀ p ∈ s.built, p.2 ≤ s.clearings) {name : String} (hbuilt : s'.built[engine]? = some (name, s'.clearings)) :
    s'.engines.lookup name = some engine ∨ (operation = .get name ∧ phase' = .storing engine) ∨
      (s.built[engine]? = some (name, s.clearings) ∧ s.engines.lookup name ≠ some engine ∧
        ¬ (operation = .get name ∧ phase = .storing engine)) := by
  cases h with
  | @builds name₁ =>
    by_cases hlt : engine < s.built.length
    · rw [List.getElem?_append_left hlt] at hbuilt
      by_cases hlookup : s.engines.lookup name = some engine
      · exact .inl hlookup
      · exact .inr (.inr ⟨hbuilt, hlookup, fun hphase => by cases hphase.2⟩)
    · rw [List.getElem?_append_right (Nat.le_of_not_lt hlt), List.getElem?_singleton] at hbuilt
      split at hbuilt
      · cases hbuilt
        obtain rfl : engine = s.built.length := by omega
        exact .inr (.inl ⟨rfl, rfl⟩)
      · cases hbuilt
  | @stores name₁ engine₁ =>
    by_cases hname : name = name₁
    · subst hname
      by_cases hengine : engine = engine₁
      · subst hengine
        exact .inl (OrderedDict.lookup_assign_self _ _ _)
      · refine .inr (.inr ⟨hbuilt, ?_, fun hphase => hengine (Phase.storing.inj hphase.2).symm⟩)
        rw [hfits.1]
        exact Option.some_ne_none engine |>.symm
    · by_cases hlookup : s.engines.lookup name = some engine
      · exact .inl ((OrderedDict.lookup_assign_of_ne _ _ hname).trans hlookup)
      · exact .inr (.inr ⟨hbuilt, hlookup, fun hphase => hname (Operation.get.inj hphase.1).symm⟩)
  | clears | forgets =>
    have hle := hpast _ (List.mem_of_getElem? hbuilt)
    exact absurd hle (Nat.not_succ_le_self _)
  | _ =>
    by_cases hlookup : s.engines.lookup name = some engine
    · exact .inl hlookup
    · exact .inr (.inr ⟨hbuilt, hlookup, fun hphase => by cases hphase.2⟩)

/-- What is built is built for the source of a call whose second look found none. -/
theorem Moves.built_cases (h : Moves s begun operation phase s' phase') :
    s'.built = s.built ∨ ∃ name, operation = .get name ∧ phase = .building ∧
      s'.built = s.built ++ [(name, s.clearings)] ∧ s'.clearings = s.clearings := by
  cases h with
  | @builds name => exact .inr ⟨name, rfl, rfl, rfl, rfl⟩
  | _ => exact .inl rfl

end Moves

/-! ## Whole runs -/

/-- **What holds in every state.** -/
structure Sound (s : State) : Prop where
  /-- The lock is held by the one call inside the block, if there is one. -/
  lock : s.calls.countP Call.critical = if s.shared.locked then 1 else 0
  begun : ∀ c ∈ s.calls, c.begun ≤ s.shared.clearings
  fits : ∀ c ∈ s.calls, Fits s.shared c.begun c.operation c.phase
  known : s.shared.Known
  /-- An engine built since the last clearing is in the dictionary, or a call is about to put it there. -/
  current : ∀ name engine, s.shared.built[engine]? = some (name, s.shared.clearings) →
    s.shared.engines.lookup name = some engine ∨
      ∃ c ∈ s.calls, c.operation = .get name ∧ c.phase = .storing engine
  once : s.shared.built.Nodup
  past : ∀ p ∈ s.shared.built, p.2 ≤ s.shared.clearings
  places : ∀ e : ℕ, s.shared.places.count e + (s.calls.flatMap Call.owns).count e =
    if e < s.shared.built.length then 1 else 0

theorem sound_init : Sound State.init where
  lock := rfl
  begun := by simp [State.init]
  fits := by simp [State.init]
  known := by
    intro name engine h
    cases h
  current := by simp [State.init]
  once := List.nodup_nil
  past := by simp [State.init]
  places := by simp [State.init, Shared.places, Shared.values]

theorem critical_first (operation : Operation) : operation.first.critical = false := by
  cases operation <;> rfl

theorem owns_first (operation : Operation) : operation.first.owns = [] := by
  cases operation <;> rfl

theorem fits_first (s : Shared) (begun : ℕ) (operation : Operation) : Fits s begun operation operation.first := by
  cases operation <;> trivial

/-- A new call has nothing and knows nothing. -/
theorem Sound.call {s : State} (h : Sound s) (operation : Operation) :
    Sound { s with calls := s.calls ++ [⟨operation, operation.first, s.shared.clearings⟩] } where
  lock := by
    have hnot : ¬ Call.critical ⟨operation, operation.first, s.shared.clearings⟩ = true := by
      rw [Call.critical, critical_first]
      exact Bool.false_ne_true
    rw [List.countP_append, List.countP_cons_of_neg hnot]
    exact h.lock
  begun := by
    intro c hc
    obtain hmem | heq := List.mem_append.mp hc
    · exact h.begun c hmem
    · rw [List.mem_singleton.mp heq]
  fits := by
    intro c hc
    obtain hmem | heq := List.mem_append.mp hc
    · exact h.fits c hmem
    · rw [List.mem_singleton.mp heq]
      exact fits_first _ _ _
  known := h.known
  current := by
    intro name engine hbuilt
    refine (h.current name engine hbuilt).imp_right ?_
    rintro ⟨c, hc, hcall⟩
    exact ⟨c, List.mem_append_left _ hc, hcall⟩
  once := h.once
  past := h.past
  places := by
    intro e
    have hplaces := h.places e
    rw [List.flatMap_append, List.flatMap_singleton, Call.owns, owns_first, List.append_nil]
    exact hplaces

/-- The lock counts for every call inside the block. -/
theorem Sound.locked_of_critical {s : State} (h : Sound s) {c : Call} (hc : c ∈ s.calls)
    (hcritical : c.critical = true) : s.shared.locked = true := by
  have hpos : 0 < s.calls.countP Call.critical := List.countP_pos_iff.mpr ⟨c, hc, hcritical⟩
  rw [h.lock] at hpos
  split at hpos
  · assumption
  · cases hpos

theorem Sound.critical_le_one {s : State} (h : Sound s) : s.calls.countP Call.critical ≤ 1 := by
  rw [h.lock]
  split <;> omega

/-- **A step of a call** keeps all of it. -/
theorem Sound.moves {s : State} {shared : Shared} {c c' : Call} {i : ℕ} (h : Sound s) (hc : s.calls[i]? = some c)
    (hoperation : c'.operation = c.operation) (hbegun : c'.begun = c.begun)
    (hmoves : Moves s.shared c.begun c.operation c.phase shared c'.phase) :
    Sound ⟨shared, s.calls.set i c'⟩ := by
  have hmem : c ∈ s.calls := List.mem_of_getElem? hc
  have hfits := h.fits c hmem
  have hfits' : Fits shared c'.begun c'.operation c'.phase := by
    rw [hoperation, hbegun]
    exact hmoves.fits h.known (h.begun c hmem) hfits
  have hothers : ∀ d ∈ s.calls.set i c', d = c' ∨ (d ∈ s.calls ∧ (c.critical = false ∨ d.critical = false)) := by
    intro d hd
    cases hcritical : c.critical with
    | true =>
      exact (Pool.others_of_countP_le_one h.critical_le_one hc hcritical d hd).imp_right fun hd => ⟨hd.1, .inr hd.2⟩
    | false =>
      obtain hd | rfl := List.mem_or_eq_of_mem_set hd
      · exact .inr ⟨hd, .inl rfl⟩
      · exact .inl rfl
  refine ⟨?_, ?_, ?_, hmoves.known h.known hfits, ?_, ?_, ?_, ?_⟩
  · have hcount : (s.calls.set i c').countP Call.critical + (if c.phase.critical then 1 else 0) =
        s.calls.countP Call.critical + if c'.phase.critical then 1 else 0 := Pool.countP_set hc
    have hlock := hmoves.lock fun hcritical => h.locked_of_critical hmem hcritical
    have hbefore := h.lock
    show (s.calls.set i c').countP Call.critical = if shared.locked then 1 else 0
    omega
  · refine Pool.forall_mem_set (fun d hd => le_trans (h.begun d hd) hmoves.clearings_le) ?_
    rw [hbegun]
    exact le_trans (h.begun c hmem) hmoves.clearings_le
  · intro d hd
    obtain rfl | ⟨hd, hout⟩ := hothers d hd
    · exact hfits'
    · exact hmoves.fits_other (h.fits d hd) hout
  · intro name engine hbuilt
    obtain hlookup | ⟨hop, hphase⟩ | ⟨hbefore, hlookup, hnot⟩ := hmoves.current hfits h.past hbuilt
    · exact .inl hlookup
    · exact .inr ⟨c', Pool.mem_set_self hc c', hoperation.trans hop, hphase⟩
    · -- it is in the hands of another call
      obtain hlookup' | ⟨d, hd, hcall⟩ := h.current name engine hbefore
      · exact absurd hlookup' hlookup
      · refine .inr ⟨d, Pool.mem_set_of_ne hd ?_ c', hcall⟩
        intro hsame
        rw [hc] at hsame
        cases hsame
        exact hnot hcall
  · obtain heq | ⟨name, hop, hphase, heq, -⟩ := hmoves.built_cases
    · exact heq ▸ h.once
    · rw [heq]
      refine h.once.append (List.nodup_singleton _) ?_
      rw [List.disjoint_singleton]
      intro hbuilt
      obtain ⟨engine, hengine⟩ := List.mem_iff_getElem?.mp hbuilt
      rw [hop, hphase] at hfits
      obtain hlookup | ⟨d, hd, -, hstoring⟩ := h.current name engine hengine
      · rw [hfits] at hlookup
        cases hlookup
      · -- two calls would be inside the block
        have hcritical : c.critical = true := by rw [Call.critical, hphase]; rfl
        have hne : s.calls[i]? ≠ some d := by
          rw [hc]
          rintro ⟨⟩
          cases hphase.symm.trans hstoring
        obtain hmem' := Pool.mem_set_of_ne hd hne c
        obtain rfl | ⟨-, hout⟩ := Pool.others_of_countP_le_one h.critical_le_one hc hcritical d hmem'
        · cases hphase.symm.trans hstoring
        · rw [Call.critical, hstoring] at hout
          cases hout
  · intro p hp
    obtain heq | ⟨name, -, -, heq, hclearings⟩ := hmoves.built_cases
    · exact le_trans (h.past p (heq ▸ hp)) hmoves.clearings_le
    · change p ∈ shared.built at hp
      rw [heq] at hp
      obtain hp | hp := List.mem_append.mp hp
      · exact le_trans (h.past p hp) hmoves.clearings_le
      · rw [List.mem_singleton.mp hp]
        exact le_of_eq hclearings.symm
  · intro e
    have hcount : ((s.calls.set i c').flatMap Call.owns).count e + c.phase.owns.count e =
      (s.calls.flatMap Call.owns).count e + c'.phase.owns.count e := Pool.count_flatMap_set hc e
    have hstep := hmoves.places hfits e
    have hbefore := h.places e
    show shared.places.count e + ((s.calls.set i c').flatMap Call.owns).count e =
      if e < shared.built.length then 1 else 0
    omega

theorem sound_step {s s' : State} {l : Step} (h : Sound s) (hstep : engineStep s l = some s') : Sound s' := by
  obtain ⟨operation, -, rfl⟩ | ⟨i, outcome, c, shared, c', -, hc, hcall, rfl⟩ := engineStep_cases hstep
  · exact h.call operation
  · obtain ⟨hoperation, hbegun, hmoves⟩ := moves_of_callStep hcall
    exact h.moves hc hoperation hbegun hmoves

/-- **Every run** leads to such a state. -/
theorem sound_of_run {ls : List Step} {s : State} (h : run engineStep State.init ls = some s) : Sound s :=
  (run_eq_some_iff.mp h).invariant sound_init fun _ _ _ hsound _ hstep => sound_step hsound hstep

/-- A call that returned an engine of the time it was made in. -/
theorem Sound.returned {s : State} (h : Sound s) {c : Call} {name : String} {engine : ℕ} (hc : c ∈ s.calls)
    (hoperation : c.operation = .get name) (hphase : c.phase = .returned engine) :
    ∃ clearings, c.begun ≤ clearings ∧ clearings ≤ s.shared.clearings ∧
      s.shared.built[engine]? = some (name, clearings) := by
  have hfits := h.fits c hc
  rw [hoperation, hphase] at hfits
  obtain ⟨clearings, hle, hbuilt⟩ := hfits
  exact ⟨clearings, hle, h.past _ (List.mem_of_getElem? hbuilt), hbuilt⟩

/-- **Calls since the last clearing** for one source get one engine. -/
theorem Sound.returned_eq {s : State} (h : Sound s) {c d : Call} {name : String} {engine engine' : ℕ}
    (hc : c ∈ s.calls) (hd : d ∈ s.calls) (hcnow : c.begun = s.shared.clearings)
    (hdnow : d.begun = s.shared.clearings) (hcget : c.operation = .get name) (hdget : d.operation = .get name)
    (hcend : c.phase = .returned engine) (hdend : d.phase = .returned engine') : engine = engine' := by
  obtain ⟨k, hkle, hkge, hk⟩ := h.returned hc hcget hcend
  obtain ⟨k', hkle', hkge', hk'⟩ := h.returned hd hdget hdend
  obtain rfl : k = k' := by omega
  obtain ⟨hlt, hget⟩ := List.getElem?_eq_some_iff.mp hk
  exact (List.getElem?_inj hlt h.once).mp (hk.trans hk'.symm)

/-- **Each engine is in one place.** -/
theorem Sound.perm {s : State} (h : Sound s) :
    (s.shared.values ++ s.shared.disposed ++ s.shared.dropped ++ s.calls.flatMap Call.owns).Perm
      (List.range s.shared.built.length) := by
  refine List.perm_iff_count.mpr fun e => ?_
  have hplaces := h.places e
  rw [List.count_append, List.count_range]
  exact hplaces

/-! ## Going on -/

/-- The call at hand can take a step. -/
def CanGo (s : Shared) (c : Call) : Prop := (callStep s c .returns).isSome = true

/-- **Inside the block** nothing has to be waited for. -/
theorem canGo_of_critical {s : Shared} {c : Call} (hfits : Fits s c.begun c.operation c.phase)
    (hcritical : c.critical = true) : CanGo s c := by
  obtain ⟨operation, phase, begun⟩ := c
  cases phase with
  | rereading | building | storing | leaving =>
    cases operation with
    | get name =>
      simp only [CanGo, callStep]
      first | rfl | (split <;> rfl)
    | dispose | forget => cases hfits
  | listing =>
    cases operation with
    | dispose => rfl
    | get | forget => cases hfits
  | clearing =>
    cases operation with
    | get => cases hfits
    | dispose | forget => rfl
  | unlocking => cases operation <;> rfl
  | reading | waiting | disposing | returned | raised => cases hcritical

/-- **With the lock free** every call that is not over can go on. -/
theorem canGo_of_unlocked {s : Shared} {c : Call} (hfits : Fits s c.begun c.operation c.phase)
    (hended : c.ended = false) (hlocked : s.locked = false) : CanGo s c := by
  cases hcritical : c.critical with
  | true => exact canGo_of_critical hfits hcritical
  | false =>
    obtain ⟨operation, phase, begun⟩ := c
    cases phase with
    | reading =>
      cases operation with
      | get name =>
        simp only [CanGo, callStep]
        split <;> rfl
      | dispose | forget => cases hfits
    | waiting => cases operation <;> simp [CanGo, callStep, hlocked]
    | disposing engines =>
      cases engines with
      | nil => cases hended
      | cons engine engines => cases operation <;> rfl
    | returned | raised => cases hended
    | rereading | building | storing | leaving | listing | clearing | unlocking => cases hcritical

/-- **No deadlock**: while a call is not over, some call can go on. -/
theorem Sound.progress {s : State} (h : Sound s) (hopen : ∃ c ∈ s.calls, c.ended = false) :
    ∃ i, (engineStep s (.go i .returns)).isSome = true := by
  have hgo : ∃ c ∈ s.calls, CanGo s.shared c := by
    cases hlocked : s.shared.locked with
    | false =>
      obtain ⟨c, hc, hended⟩ := hopen
      exact ⟨c, hc, canGo_of_unlocked (h.fits c hc) hended hlocked⟩
    | true =>
      have hlock := h.lock
      rw [hlocked, if_pos rfl] at hlock
      obtain ⟨c, hc, hcritical⟩ := List.countP_pos_iff.mp (hlock ▸ Nat.one_pos)
      exact ⟨c, hc, canGo_of_critical (h.fits c hc) hcritical⟩
  obtain ⟨c, hc, hcan⟩ := hgo
  obtain ⟨i, hi⟩ := List.mem_iff_getElem?.mp hc
  refine ⟨i, ?_⟩
  rw [engineStep, hi, Option.bind_some, Option.isSome_map]
  exact hcan

/-- A call that is over has nothing and is outside the block. -/
theorem owns_of_ended {c : Call} (h : c.ended = true) : c.owns = [] ∧ c.critical = false := by
  obtain ⟨operation, phase, begun⟩ := c
  cases phase with
  | disposing engines =>
    cases engines with
    | nil => exact ⟨rfl, rfl⟩
    | cons => cases h
  | returned | raised => exact ⟨rfl, rfl⟩
  | reading | waiting | rereading | building | storing | leaving | listing | clearing | unlocking => cases h

/-- When every call is over, the lock is free. -/
theorem Sound.unlocked_of_ended {s : State} (h : Sound s) (hended : ∀ c ∈ s.calls, c.ended = true) :
    s.shared.locked = false := by
  have hlock := h.lock
  have hzero : s.calls.countP Call.critical = 0 :=
    List.countP_eq_zero.mpr fun c hc hcritical => by
      rw [(owns_of_ended (hended c hc)).2] at hcritical
      cases hcritical
  rw [hzero] at hlock
  split at hlock
  · cases hlock
  · exact Bool.eq_false_iff.mpr ‹_›

/-- **Engines, whatever the interleaving.** Between two clearings no source gets two engines. Every engine built
is in one place: in the dictionary, disposed, dropped, or in the hands of one call. A call that returned an
engine has one that was built for its source and was in the dictionary after the call was made, so the calls
for one source since the last clearing all have the same one. While a call is not over some call can go on,
and when all are over the lock is free. -/
theorem engines_of_run {ls : List Step} {s : State} (h : run engineStep State.init ls = some s) :
    s.shared.built.Nodup ∧
    (s.shared.values ++ s.shared.disposed ++ s.shared.dropped ++ s.calls.flatMap Call.owns).Perm
      (List.range s.shared.built.length) ∧
    (∀ c ∈ s.calls, ∀ name engine, c.operation = .get name → c.phase = .returned engine →
      (∃ clearings, c.begun ≤ clearings ∧ clearings ≤ s.shared.clearings ∧
        s.shared.built[engine]? = some (name, clearings)) ∧
      ∀ d ∈ s.calls, ∀ engine', d.operation = .get name → d.phase = .returned engine' →
        c.begun = s.shared.clearings → d.begun = s.shared.clearings → engine = engine') ∧
    ((∃ c ∈ s.calls, c.ended = false) → ∃ i, (engineStep s (.go i .returns)).isSome = true) ∧
    ((∀ c ∈ s.calls, c.ended = true) → s.shared.locked = false) := by
  have hsound := sound_of_run h
  refine ⟨hsound.once, hsound.perm, ?_, hsound.progress, hsound.unlocked_of_ended⟩
  intro c hc name engine hget hend
  refine ⟨hsound.returned hc hget hend, ?_⟩
  intro d hd engine' hdget hdend hcnow hdnow
  exact hsound.returned_eq hc hd hcnow hdnow hget hdget hend hdend

/-- Two calls for one source: one engine, returned to both. -/
theorem engines_of_run_both : [("default", 0)].Nodup ∧ ([0] ++ [] ++ [] ++ []).Perm (List.range 1) := by
  have h : run engineStep State.init
      (.call (getEngine none "default") :: .call (getEngine none "default") ::
        List.replicate 6 (.go 0 .returns) ++ List.replicate 1 (.go 1 .returns)) =
      some ⟨⟨.ofPairs [("default", 0)], false, 0, [("default", 0)], [], []⟩,
        [⟨.get "default", .returned 0, 0⟩, ⟨.get "default", .returned 0, 0⟩]⟩ := rfl
  exact ⟨(engines_of_run h).1, (engines_of_run h).2.1⟩

/-! ## Shutting down -/

/-- The steps other than `cache_clear` and a `dispose` that raises. -/
def Step.Tidy (s : State) : Step → Prop
  | .call operation => operation ≠ .forget
  | .go i outcome => outcome = .raises → ∀ c ∈ s.calls[i]?, c.phase = .building

instance (s : State) (l : Step) : Decidable (l.Tidy s) :=
  match l with
  | .call operation => inferInstanceAs (Decidable (operation ≠ .forget))
  | .go i outcome => inferInstanceAs (Decidable (outcome = .raises → ∀ c ∈ s.calls[i]?, c.phase = .building))

/-- No call forgets engines, and none were dropped. -/
def State.Tidy (s : State) : Prop := s.shared.dropped = [] ∧ ∀ c ∈ s.calls, c.operation ≠ .forget

/-- A step that raises is the building of an engine or the disposal of one. -/
theorem dropped_of_callStep {s s' : Shared} {c c' : Call} {outcome : Outcome}
    (h : callStep s c outcome = some (s', c')) (hforget : c.operation ≠ .forget)
    (hraises : outcome = .raises → c.phase = .building) : s'.dropped = s.dropped := by
  obtain ⟨operation, phase, begun⟩ := c
  obtain ⟨-, -, hmoves⟩ := moves_of_callStep h
  generalize hphase : c'.phase = phase' at hmoves
  cases hmoves with
  | forgets => exact absurd rfl hforget
  | disposeFails =>
    cases outcome with
    | raises => cases hraises rfl
    | returns =>
      -- the loop that goes on does not end with an exception
      simp only [callStep, Option.some.injEq, Prod.mk.injEq] at h
      rw [← h.2] at hphase
      cases hphase
  | _ => rfl

/-- **Nothing is left open**: in a run without `cache_clear` in which no `dispose` raises, once every call is over
each engine built is in the dictionary or was disposed, once. -/
theorem disposed_of_run {ls : List Step} {s : State} (h : RunWhere engineStep Step.Tidy State.init ls s)
    (hended : ∀ c ∈ s.calls, c.ended = true) :
    (s.shared.values ++ s.shared.disposed).Perm (List.range s.shared.built.length) := by
  have hinv : Sound s ∧ s.Tidy := by
    refine h.invariant (I := fun s => Sound s ∧ s.Tidy) ⟨sound_init, rfl, by simp [State.init]⟩ ?_
    rintro s l s' ⟨hsound, hdropped, hforget⟩ htidy hstep
    refine ⟨sound_step hsound hstep, ?_⟩
    obtain ⟨operation, rfl, rfl⟩ | ⟨i, outcome, c, shared, c', rfl, hc, hcall, rfl⟩ := engineStep_cases hstep
    · refine ⟨hdropped, fun c hc => ?_⟩
      obtain hmem | heq := List.mem_append.mp hc
      · exact hforget c hmem
      · rw [List.mem_singleton.mp heq]
        exact htidy
    · have hmem := List.mem_of_getElem? hc
      refine ⟨?_, Pool.forall_mem_set hforget ?_⟩
      · exact (dropped_of_callStep hcall (hforget c hmem) fun hraises => htidy hraises c hc).trans hdropped
      · rw [(moves_of_callStep hcall).1]
        exact hforget c hmem
  have hperm := hinv.1.perm
  have howns : s.calls.flatMap Call.owns = [] :=
    List.flatMap_eq_nil_iff.mpr fun c hc => (owns_of_ended (hended c hc)).1
  rw [howns, hinv.2.1, List.append_nil, List.append_nil] at hperm
  exact hperm

/-- One engine built and shut down. -/
theorem disposed_of_run_shutdown : [0].Perm (List.range 1) := by
  have h : RunWhere engineStep (fun s l => Step.Tidy s l) State.init
      (.call (getEngine none "default") :: List.replicate 6 (.go 0 .returns) ++
        .call .dispose :: List.replicate 5 (.go 1 .returns))
      ⟨⟨∅, false, 1, [("default", 0)], [0], []⟩,
        [⟨.get "default", .returned 0, 0⟩, ⟨.dispose, .disposing [], 0⟩]⟩ :=
    runWhere_sound rfl
  exact disposed_of_run h (by decide)

end EngineCache

end LocalSqlAgent
