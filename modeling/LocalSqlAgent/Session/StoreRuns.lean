import LocalSqlAgent.Lib.Pool
import LocalSqlAgent.Lib.Transition
import LocalSqlAgent.Session.Store

/-! # The session store under concurrency

Requests run in worker threads and a question waits on a model call, so a call's lock sections and
transactions interleave with everyone else's. Each section is a step here:

* a lookup (`get`): the section under the lock, the read of the session row, the read of the turns,
  the section that installs the rebuilt object;
* a question (`ask` and `sync_turn`): the read of the turn's index, the append to the object it holds,
  the upsert of the session row, the save of the turn;
* a deletion: its route's lookup, the removal from the live sessions, the transaction.

Ids come from `uuid4`: a new id is one nobody has used, and no request names a session before the
call that creates it has returned. -/

namespace LocalSqlAgent

/-! ## States -/

/-- What a call is for. -/
inductive RequestKind where
  | create
  | read
  | ask (question : String)
  | delete
  deriving DecidableEq, Repr

/-- How a call ended. -/
inductive RequestOutcome where
  | created
  | notFound
  | refused
  | failed
  | synced
  | deleted
  deriving DecidableEq, Repr

/-- How far a call has come. `obj` is the object the call holds. -/
inductive RequestPhase where
  | creating (obj : Nat)
  | looking (now : Int)
  | missed (now : Int)
  | rowLoaded (now : Int) (row : SessionRow)
  | turnsLoaded (now : Int) (row : SessionRow) (turns : List Turn)
      (memory : List (String × TurnMemory))
  | found (obj : Nat)
  | asking (obj : Nat) (index : Nat)
  | appended (obj : Nat) (turn : Turn)
  | upserted (obj : Nat) (turn : Turn)
  | hotRemoved
  | finished (outcome : RequestOutcome)
  deriving DecidableEq, Repr

/-- One call. -/
structure StoreOp where
  /-- What it is for. -/
  kind : RequestKind
  /-- The session it names. -/
  sessionId : String
  /-- `principal.id`. -/
  principal : Option String
  /-- How far it has come. -/
  phase : RequestPhase
  deriving DecidableEq, Repr

/-- The store, its backend, and every call. -/
structure StoreState where
  /-- Every session object made so far. -/
  heap : List SessionRecord
  /-- `_sessions`, oldest first. -/
  hot : List HotEntry
  /-- The backend. -/
  db : SessionTables
  /-- `time.monotonic()`. -/
  clock : Int
  /-- The calls, in the order they began. -/
  ops : List StoreOp
  deriving DecidableEq

/-- An empty store over an empty backend. -/
def StoreState.init : StoreState := ⟨[], [], ⟨[], []⟩, 0, []⟩

/-- The store's settings. -/
structure StoreSettings where
  /-- `session_ttl_seconds`; `0` switches sessions off. -/
  ttl : Int
  /-- `session_max_count`; below zero it limits as `0` does. -/
  maxSize : Nat
  /-- `session_title_max_length`. -/
  titleMaxLength : Nat

/-- What a turn's pipeline came to. -/
structure TurnOutcome where
  /-- `outcome.sql`. -/
  sql : Option String
  /-- `outcome.result`. -/
  result : Option TurnResult
  /-- `outcome.result_columns`. -/
  resultColumns : List String
  /-- `memory_filters`. -/
  filters : List (String × String)
  /-- `outcome.guard.injected_top`. -/
  injectedTop : Option Nat
  /-- The source the turn was answered from. -/
  datasource : Option String
  deriving DecidableEq, Repr

/-- `truncate_at_word_boundary`. -/
def truncateAtWordBoundary (text : String) (maxLength : Nat) : String :=
  let cs := text.toList
  if cs.length ≤ maxLength then text
  else
    let truncated := cs.take maxLength
    let lastSpace := (rfindChar ' ' truncated).getD 0
    String.ofList (rstrip (if 0 < lastSpace then truncated.take lastSpace else truncated))

namespace StoreState

variable (s : StoreState)

/-- A call moves on. -/
def setPhase (c : Nat) (op : StoreOp) (phase : RequestPhase) : StoreState :=
  { s with ops := s.ops.set c { op with phase := phase } }

/-- An object is changed. -/
def setObj (obj : Nat) (r : SessionRecord) : StoreState := { s with heap := s.heap.set obj r }

/-- An entry belongs to the owner. -/
def ownedBy (ownerId : Option String) (e : HotEntry) : Bool :=
  (s.heap[e.2]?).any fun r => r.ownerId = ownerId

/-- A new object is registered: room is made in its owner's quota first. -/
def register (maxSize : Nat) (r : SessionRecord) : StoreState :=
  { s with
    heap := s.heap ++ [r]
    hot := hotSet r.sessionId s.heap.length (makeRoomFor maxSize (s.ownedBy r.ownerId) s.hot) }

/-- The section of `get` under the lock: a record idle for longer than `ttl` is dropped, a live one
is touched and returned. -/
def lookHot (ttl : Int) (sid : String) (now : Int) : StoreState × Option Nat :=
  match hotGet sid s.hot with
  | none => (s, none)
  | some obj =>
    match s.heap[obj]? with
    | none => (s, none)
    | some r =>
      if ttl < now - r.lastActive then ({ s with hot := hotErase sid s.hot }, none)
      else
        ({ s with
            heap := s.heap.set obj { r with lastActive := now }
            hot := hotErase sid s.hot ++ [(sid, obj)] }, some obj)

/-- The record `_rehydrate` builds. -/
def rebuilt (sid : String) (now : Int) (row : SessionRow) (turns : List Turn)
    (memory : List (String × TurnMemory)) : SessionRecord :=
  { sessionId := sid, createdAt := row.createdAt, lastActive := now, turns := turns,
    memory := memory, ownerId := row.ownerId, title := row.title }

/-- **`SessionStore.get`**, run without interruption: the state after it and the object returned. -/
def get (cfg : StoreSettings) (sid : String) (now : Int) : StoreState × Option Nat :=
  if cfg.ttl ≤ 0 then (s, none)
  else
    match s.lookHot cfg.ttl sid now with
    | (s', some obj) => (s', some obj)
    | (s', none) =>
      match s'.db.loadSessionRow sid with
      | none => (s', none)
      | some row =>
        (s'.register cfg.maxSize
          (rebuilt sid now row (s'.db.loadTurns sid) (s'.db.loadMemory sid)), some s'.heap.length)

/-- `_require_owned_session`: whether the principal may use the record. -/
def owns (principal : Option String) (r : SessionRecord) : Bool :=
  r.ownerId = none || r.ownerId = principal

end StoreState

/-! ## Steps -/

/-- The steps. -/
inductive StoreLabel where
  | tick (d : Nat)
  | create (sid : String) (ownerId : Option String)
  | commitCreate (c : Nat)
  | begin (kind : RequestKind) (sid : String) (principal : Option String)
  | look (c : Nat)
  | loadRow (c : Nat)
  | loadTurns (c : Nat)
  | install (c : Nat)
  | startAsk (c : Nat)
  | append (c : Nat) (turnId : String) (outcome : TurnOutcome)
  | fail (c : Nat)
  | upsertSession (c : Nat)
  | saveTurn (c : Nat)
  | removeHot (c : Nat)
  | deleteRows (c : Nat)
  deriving DecidableEq

namespace StoreState

variable (s : StoreState)

/-- No call has named the session yet. -/
def FreshSession (sid : String) : Prop := ∀ op ∈ s.ops, op.sessionId ≠ sid

/-- The call that creates the session has not returned. -/
def Creating (sid : String) : Prop :=
  ∃ op ∈ s.ops, op.sessionId = sid ∧ ∃ obj, op.phase = .creating obj

/-- No turn has the id yet. -/
def FreshTurn (turnId : String) : Prop :=
  (∀ r ∈ s.heap, ∀ t ∈ r.turns, t.turnId ≠ turnId) ∧ ∀ row ∈ s.db.turns, row.turn.turnId ≠ turnId

instance (sid : String) : Decidable (s.FreshSession sid) := by
  unfold FreshSession
  infer_instance

/-- The phase is `creating`. -/
def isCreating (op : StoreOp) : Bool :=
  match op.phase with
  | .creating _ => true
  | _ => false

theorem creating_iff {sid : String} :
    s.Creating sid ↔ ∃ op ∈ s.ops, op.sessionId = sid ∧ isCreating op = true := by
  constructor
  · rintro ⟨op, hop, hsid, obj, hphase⟩
    exact ⟨op, hop, hsid, by rw [isCreating, hphase]⟩
  · rintro ⟨op, hop, hsid, hphase⟩
    refine ⟨op, hop, hsid, ?_⟩
    rw [isCreating] at hphase
    split at hphase
    · exact ⟨_, ‹_›⟩
    · cases hphase

instance (sid : String) : Decidable (s.Creating sid) := decidable_of_iff' _ (creating_iff s)

instance (turnId : String) : Decidable (s.FreshTurn turnId) := by
  unfold FreshTurn
  infer_instance

end StoreState

/-- The turn `ask` builds. -/
def buildTurn (turnId sid question : String) (index : Nat) (outcome : TurnOutcome) : Turn :=
  ⟨turnId, sid, index, question, outcome.sql, outcome.result⟩

/-- The memory `ask` builds. -/
def buildMemory (turnId : String) (outcome : TurnOutcome) : TurnMemory :=
  ⟨turnId, outcome.filters, outcome.resultColumns, outcome.sql, outcome.injectedTop,
    (outcome.result.map (·.rowCount)).getD 0, outcome.datasource⟩

section Steps

variable (cfg : StoreSettings)

/-- The title `sync_turn` leaves on the record. -/
def syncedTitle (r : SessionRecord) (turn : Turn) : Option String :=
  if r.title = none ∧ turn.index = 1 then
    some (truncateAtWordBoundary turn.question cfg.titleMaxLength)
  else r.title

/-- **One step of the interleaved store.** -/
def storeStep (s : StoreState) : StoreLabel → Option StoreState
  | .tick d => some { s with clock := s.clock + d }
  | .create sid ownerId =>
    if s.FreshSession sid then
      let s' := s.register cfg.maxSize ⟨sid, s.clock, s.clock, [], [], ownerId, none⟩
      some { s' with ops := s.ops ++ [⟨.create, sid, ownerId, .creating s.heap.length⟩] }
    else none
  | .commitCreate c =>
    match s.ops[c]? with
    | some ⟨kind, sid, principal, .creating obj⟩ =>
      (s.heap[obj]?).map fun r =>
        { s.setPhase c ⟨kind, sid, principal, .creating obj⟩ (.finished .created) with
          db := s.db.upsertSession ⟨sid, r.ownerId, none, r.createdAt⟩ }
    | _ => none
  | .begin kind sid principal =>
    if kind = .create ∨ s.Creating sid then none
    else some { s with ops := s.ops ++ [⟨kind, sid, principal, .looking s.clock⟩] }
  | .look c =>
    match s.ops[c]? with
    | some ⟨kind, sid, principal, .looking now⟩ =>
      if cfg.ttl ≤ 0 then
        some (s.setPhase c ⟨kind, sid, principal, .looking now⟩ (.finished .notFound))
      else
        match s.lookHot cfg.ttl sid now with
        | (s', some obj) => some (s'.setPhase c ⟨kind, sid, principal, .looking now⟩ (.found obj))
        | (s', none) => some (s'.setPhase c ⟨kind, sid, principal, .looking now⟩ (.missed now))
    | _ => none
  | .loadRow c =>
    match s.ops[c]? with
    | some ⟨kind, sid, principal, .missed now⟩ =>
      match s.db.loadSessionRow sid with
      | none => some (s.setPhase c ⟨kind, sid, principal, .missed now⟩ (.finished .notFound))
      | some row => some (s.setPhase c ⟨kind, sid, principal, .missed now⟩ (.rowLoaded now row))
    | _ => none
  | .loadTurns c =>
    match s.ops[c]? with
    | some ⟨kind, sid, principal, .rowLoaded now row⟩ =>
      some (s.setPhase c ⟨kind, sid, principal, .rowLoaded now row⟩
        (.turnsLoaded now row (s.db.loadTurns sid) (s.db.loadMemory sid)))
    | _ => none
  | .install c =>
    match s.ops[c]? with
    | some ⟨kind, sid, principal, .turnsLoaded now row turns memory⟩ =>
      -- whatever has happened to the session since its rows were read
      some ((s.register cfg.maxSize (StoreState.rebuilt sid now row turns memory)).setPhase c
        ⟨kind, sid, principal, .turnsLoaded now row turns memory⟩ (.found s.heap.length))
    | _ => none
  | .startAsk c =>
    match s.ops[c]? with
    | some ⟨.ask question, sid, principal, .found obj⟩ =>
      (s.heap[obj]?).map fun r =>
        -- the index is read here, before the model is asked
        s.setPhase c ⟨.ask question, sid, principal, .found obj⟩
          (if StoreState.owns principal r then .asking obj (r.turns.length + 1)
          else .finished .refused)
    | _ => none
  | .append c turnId outcome =>
    match s.ops[c]? with
    | some ⟨.ask question, sid, principal, .asking obj index⟩ =>
      if s.FreshTurn turnId then
        (s.heap[obj]?).map fun r =>
          let turn := buildTurn turnId r.sessionId question index outcome
          (s.setObj obj
            { r with
              turns := r.turns ++ [turn]
              memory := r.memory ++ [(turnId, buildMemory turnId outcome)] }).setPhase c
            ⟨.ask question, sid, principal, .asking obj index⟩ (.appended obj turn)
      else none
    | _ => none
  | .fail c =>
    match s.ops[c]? with
    | some ⟨.ask question, sid, principal, .asking obj index⟩ =>
      some (s.setPhase c ⟨.ask question, sid, principal, .asking obj index⟩ (.finished .failed))
    | some ⟨.ask question, sid, principal, .found obj⟩ =>
      some (s.setPhase c ⟨.ask question, sid, principal, .found obj⟩ (.finished .failed))
    | _ => none
  | .upsertSession c =>
    match s.ops[c]? with
    | some ⟨kind, sid, principal, .appended obj turn⟩ =>
      (s.heap[obj]?).map fun r =>
        -- an upsert: a row that a deletion has taken is written again
        let title := syncedTitle cfg r turn
        { (s.setObj obj { r with title := title }).setPhase c
            ⟨kind, sid, principal, .appended obj turn⟩ (.upserted obj turn) with
          db := s.db.upsertSession ⟨r.sessionId, r.ownerId, title, r.createdAt⟩ }
    | _ => none
  | .saveTurn c =>
    match s.ops[c]? with
    | some ⟨kind, sid, principal, .upserted obj turn⟩ =>
      (s.heap[obj]?).map fun r =>
        { s.setPhase c ⟨kind, sid, principal, .upserted obj turn⟩ (.finished .synced) with
          db := s.db.saveTurn r.sessionId turn (r.memoryFor turn.turnId) }
    | _ => none
  | .removeHot c =>
    match s.ops[c]? with
    | some ⟨.delete, sid, principal, .found obj⟩ =>
      (s.heap[obj]?).map fun r =>
        if StoreState.owns principal r then
          { s.setPhase c ⟨.delete, sid, principal, .found obj⟩ .hotRemoved with
            hot := hotErase sid s.hot }
        else s.setPhase c ⟨.delete, sid, principal, .found obj⟩ (.finished .refused)
    | _ => none
  | .deleteRows c =>
    match s.ops[c]? with
    | some ⟨kind, sid, principal, .hotRemoved⟩ =>
      some { s.setPhase c ⟨kind, sid, principal, .hotRemoved⟩ (.finished .deleted) with
        db := s.db.deleteSession sid }
    | _ => none

/-! ## What a step can do -/

/-- **What a step can do**, one constructor for each way it can go. -/
inductive StoreMove (s : StoreState) : StoreLabel → StoreState → Prop
  | tick (d : Nat) : StoreMove s (.tick d) { s with clock := s.clock + d }
  | create {sid : String} {ownerId : Option String} (hfresh : s.FreshSession sid) :
      StoreMove s (.create sid ownerId)
        { s.register cfg.maxSize ⟨sid, s.clock, s.clock, [], [], ownerId, none⟩ with
          ops := s.ops ++ [⟨.create, sid, ownerId, .creating s.heap.length⟩] }
  | commitCreate {c obj : Nat} {op : StoreOp} {r : SessionRecord} (hop : s.ops[c]? = some op)
      (hphase : op.phase = .creating obj) (hobj : s.heap[obj]? = some r) :
      StoreMove s (.commitCreate c) { s.setPhase c op (.finished .created) with
        db := s.db.upsertSession ⟨op.sessionId, r.ownerId, none, r.createdAt⟩ }
  | begin {kind : RequestKind} {sid : String} {principal : Option String} (hkind : kind ≠ .create)
      (hcreating : ¬ s.Creating sid) :
      StoreMove s (.begin kind sid principal)
        { s with ops := s.ops ++ [⟨kind, sid, principal, .looking s.clock⟩] }
  | disabled {c : Nat} {op : StoreOp} {now : Int} (hop : s.ops[c]? = some op)
      (hphase : op.phase = .looking now) (httl : cfg.ttl ≤ 0) :
      StoreMove s (.look c) (s.setPhase c op (.finished .notFound))
  | hit {c obj : Nat} {op : StoreOp} {now : Int} {r : SessionRecord}
      (hop : s.ops[c]? = some op) (hphase : op.phase = .looking now) (httl : 0 < cfg.ttl)
      (hhot : (op.sessionId, obj) ∈ s.hot) (hobj : s.heap[obj]? = some r) :
      StoreMove s (.look c) (StoreState.setPhase
        { s with
          heap := s.heap.set obj { r with lastActive := now }
          hot := hotErase op.sessionId s.hot ++ [(op.sessionId, obj)] } c op (.found obj))
  | miss {c : Nat} {op : StoreOp} {now : Int} {hot' : List HotEntry}
      (hop : s.ops[c]? = some op) (hphase : op.phase = .looking now) (httl : 0 < cfg.ttl)
      (hhot : hot'.Sublist s.hot) :
      StoreMove s (.look c) (StoreState.setPhase { s with hot := hot' } c op (.missed now))
  | rowMissing {c : Nat} {op : StoreOp} {now : Int} (hop : s.ops[c]? = some op)
      (hphase : op.phase = .missed now) (hrow : ¬ s.db.HasSession op.sessionId) :
      StoreMove s (.loadRow c) (s.setPhase c op (.finished .notFound))
  | rowLoaded {c : Nat} {op : StoreOp} {now : Int} {row : SessionRow}
      (hop : s.ops[c]? = some op) (hphase : op.phase = .missed now)
      (hrow : s.db.loadSessionRow op.sessionId = some row) :
      StoreMove s (.loadRow c) (s.setPhase c op (.rowLoaded now row))
  | turnsLoaded {c : Nat} {op : StoreOp} {now : Int} {row : SessionRow}
      (hop : s.ops[c]? = some op) (hphase : op.phase = .rowLoaded now row) :
      StoreMove s (.loadTurns c) (s.setPhase c op (.turnsLoaded now row
        (s.db.loadTurns op.sessionId) (s.db.loadMemory op.sessionId)))
  | install {c : Nat} {op : StoreOp} {now : Int} {row : SessionRow} {turns : List Turn}
      {memory : List (String × TurnMemory)} (hop : s.ops[c]? = some op)
      (hphase : op.phase = .turnsLoaded now row turns memory) :
      StoreMove s (.install c)
        ((s.register cfg.maxSize (StoreState.rebuilt op.sessionId now row turns memory)).setPhase
          c op (.found s.heap.length))
  | startAsk {c obj : Nat} {op : StoreOp} {question : String} {r : SessionRecord}
      (hop : s.ops[c]? = some op) (hkind : op.kind = .ask question)
      (hphase : op.phase = .found obj) (hobj : s.heap[obj]? = some r)
      (howns : StoreState.owns op.principal r = true) :
      StoreMove s (.startAsk c) (s.setPhase c op (.asking obj (r.turns.length + 1)))
  | giveUp {l : StoreLabel} {c : Nat} {op : StoreOp} {outcome : RequestOutcome}
      (hop : s.ops[c]? = some op)
      (hphase : ∃ obj, op.phase = .found obj ∨ ∃ index, op.phase = .asking obj index)
      (houtcome : outcome = .refused ∨ outcome = .failed)
      (hlabel : l = .startAsk c ∨ l = .fail c ∨ l = .removeHot c) :
      StoreMove s l (s.setPhase c op (.finished outcome))
  | append {c obj index : Nat} {op : StoreOp} {turn : Turn} {memory : TurnMemory}
      {outcome : TurnOutcome} {r : SessionRecord} (hop : s.ops[c]? = some op)
      (hphase : op.phase = .asking obj index) (hobj : s.heap[obj]? = some r)
      (hfresh : s.FreshTurn turn.turnId) (hindex : turn.index = index) :
      StoreMove s (.append c turn.turnId outcome)
        ((s.setObj obj { r with
            turns := r.turns ++ [turn], memory := r.memory ++ [(turn.turnId, memory)] }).setPhase
          c op (.appended obj turn))
  | upsertSession {c obj : Nat} {op : StoreOp} {turn : Turn} {r : SessionRecord}
      (hop : s.ops[c]? = some op) (hphase : op.phase = .appended obj turn)
      (hobj : s.heap[obj]? = some r) :
      StoreMove s (.upsertSession c)
        { (s.setObj obj { r with title := syncedTitle cfg r turn }).setPhase c op
            (.upserted obj turn) with
          db := s.db.upsertSession
            ⟨r.sessionId, r.ownerId, syncedTitle cfg r turn, r.createdAt⟩ }
  | saveTurn {c obj : Nat} {op : StoreOp} {turn : Turn} {r : SessionRecord}
      (hop : s.ops[c]? = some op) (hphase : op.phase = .upserted obj turn)
      (hobj : s.heap[obj]? = some r) :
      StoreMove s (.saveTurn c) { s.setPhase c op (.finished .synced) with
        db := s.db.saveTurn r.sessionId turn (r.memoryFor turn.turnId) }
  | removeHot {c obj : Nat} {op : StoreOp} {r : SessionRecord} (hop : s.ops[c]? = some op)
      (hphase : op.phase = .found obj) (hobj : s.heap[obj]? = some r)
      (howns : StoreState.owns op.principal r = true) :
      StoreMove s (.removeHot c) { s.setPhase c op .hotRemoved with
        hot := hotErase op.sessionId s.hot }
  | deleteRows {c : Nat} {op : StoreOp} (hop : s.ops[c]? = some op)
      (hphase : op.phase = .hotRemoved) :
      StoreMove s (.deleteRows c) { s.setPhase c op (.finished .deleted) with
        db := s.db.deleteSession op.sessionId }

variable {cfg}

/-- What the section of `get` under the lock comes to. -/
theorem lookHot_cases {s s' : StoreState} {ttl now : Int} {sid : String} {found : Option Nat}
    (h : s.lookHot ttl sid now = (s', found)) :
    (∃ obj r, found = some obj ∧ (sid, obj) ∈ s.hot ∧ s.heap[obj]? = some r ∧
      s' = { s with
        heap := s.heap.set obj { r with lastActive := now }
        hot := hotErase sid s.hot ++ [(sid, obj)] }) ∨
    (found = none ∧ ∃ hot' : List HotEntry, hot'.Sublist s.hot ∧ s' = { s with hot := hot' }) := by
  rw [StoreState.lookHot] at h
  split at h
  · cases h
    exact .inr ⟨rfl, s.hot, List.Sublist.refl s.hot, rfl⟩
  · rename_i obj hget
    split at h
    · cases h
      exact .inr ⟨rfl, s.hot, List.Sublist.refl s.hot, rfl⟩
    · rename_i r hobj
      split at h
      · -- expired: its entry goes
        cases h
        exact .inr ⟨rfl, _, List.filter_sublist, rfl⟩
      · cases h
        exact .inl ⟨obj, r, rfl, mem_of_hotGet hget, hobj, rfl⟩

/-- **Inversion**: a step goes one of the ways of `StoreMove`. -/
theorem storeMove_of_step {s s' : StoreState} {l : StoreLabel}
    (h : storeStep cfg s l = some s') : StoreMove cfg s l s' := by
  cases l with
  | tick d =>
    cases h
    exact .tick d
  | create sid ownerId =>
    simp only [storeStep] at h
    split at h
    · cases h
      exact .create ‹_›
    · cases h
  | commitCreate c =>
    simp only [storeStep] at h
    split at h
    · rename_i hop
      obtain ⟨r, hobj, rfl⟩ := Option.map_eq_some_iff.mp h
      exact .commitCreate hop rfl hobj
    · cases h
  | begin kind sid principal =>
    simp only [storeStep] at h
    split at h
    · cases h
    · rename_i hkind
      cases h
      exact .begin (fun hcreate => hkind (.inl hcreate)) fun hcreating => hkind (.inr hcreating)
  | look c =>
    simp only [storeStep] at h
    split at h
    · rename_i kind sid principal now hop
      split at h
      · cases h
        exact .disabled hop rfl ‹_›
      · rename_i httl
        split at h
        all_goals
          rename_i s'' hlook
          cases h
          obtain ⟨obj, r, hfound, hhot, hobj, rfl⟩ | ⟨hfound, hot', hhot, rfl⟩ :=
            lookHot_cases hlook
        · cases hfound
          exact .hit hop rfl (not_le.mp httl) hhot hobj
        · cases hfound
        · cases hfound
        · exact .miss hop rfl (not_le.mp httl) hhot
    · cases h
  | loadRow c =>
    simp only [storeStep] at h
    split at h
    · rename_i hop
      split at h
      · rename_i hrow
        cases h
        exact .rowMissing hop rfl (loadSessionRow_eq_none_iff.mp hrow)
      · rename_i row hrow
        cases h
        exact .rowLoaded hop rfl hrow
    · cases h
  | loadTurns c =>
    simp only [storeStep] at h
    split at h
    · rename_i hop
      cases h
      exact .turnsLoaded hop rfl
    · cases h
  | install c =>
    simp only [storeStep] at h
    split at h
    · rename_i hop
      cases h
      exact .install hop rfl
    · cases h
  | startAsk c =>
    simp only [storeStep] at h
    split at h
    · rename_i hop
      obtain ⟨r, hobj, rfl⟩ := Option.map_eq_some_iff.mp h
      split
      · exact .startAsk hop rfl rfl hobj ‹_›
      · exact .giveUp hop ⟨_, .inl rfl⟩ (.inl rfl) (.inl rfl)
    · cases h
  | append c turnId outcome =>
    simp only [storeStep] at h
    split at h
    · rename_i question sid principal obj index hop
      split at h
      · rename_i hfresh
        obtain ⟨r, hobj, rfl⟩ := Option.map_eq_some_iff.mp h
        exact .append hop rfl hobj
          (show s.FreshTurn (buildTurn turnId r.sessionId question index outcome).turnId from hfresh)
          rfl
      · cases h
    · cases h
  | fail c =>
    simp only [storeStep] at h
    split at h
    · cases h
      exact .giveUp ‹_› ⟨_, .inr ⟨_, rfl⟩⟩ (.inr rfl) (.inr (.inl rfl))
    · cases h
      exact .giveUp ‹_› ⟨_, .inl rfl⟩ (.inr rfl) (.inr (.inl rfl))
    · cases h
  | upsertSession c =>
    simp only [storeStep] at h
    split at h
    · rename_i hop
      obtain ⟨r, hobj, rfl⟩ := Option.map_eq_some_iff.mp h
      exact .upsertSession hop rfl hobj
    · cases h
  | saveTurn c =>
    simp only [storeStep] at h
    split at h
    · rename_i hop
      obtain ⟨r, hobj, rfl⟩ := Option.map_eq_some_iff.mp h
      exact .saveTurn hop rfl hobj
    · cases h
  | removeHot c =>
    simp only [storeStep] at h
    split at h
    · rename_i hop
      obtain ⟨r, hobj, rfl⟩ := Option.map_eq_some_iff.mp h
      split
      · exact .removeHot hop rfl hobj ‹_›
      · exact .giveUp hop ⟨_, .inl rfl⟩ (.inl rfl) (.inr (.inr rfl))
    · cases h
  | deleteRows c =>
    simp only [storeStep] at h
    split at h
    · rename_i hop
      cases h
      exact .deleteRows hop rfl
    · cases h

end Steps

/-! ## Objects belong to their sessions -/

/-- The object a call holds. -/
def RequestPhase.obj : RequestPhase → Option Nat
  | .creating obj | .found obj | .asking obj _ | .appended obj _ | .upserted obj _ => some obj
  | _ => none

/-- The object is one of the session's. -/
def ObjectOf (heap : List SessionRecord) (sid : String) (obj : Nat) : Prop :=
  ∃ r, heap[obj]? = some r ∧ r.sessionId = sid

/-- Reading a heap after one object has been replaced. -/
theorem getElem?_heap_set {heap : List SessionRecord} {obj obj' : Nat} {r y x : SessionRecord}
    (hobj : heap[obj]? = some r) (hx : heap[obj']? = some x) :
    (obj' = obj ∧ x = r ∧ (heap.set obj y)[obj']? = some y) ∨
      (obj' ≠ obj ∧ (heap.set obj y)[obj']? = some x) := by
  by_cases h : obj' = obj
  · subst h
    rw [hobj, Option.some.injEq] at hx
    exact .inl ⟨rfl, hx.symm, List.getElem?_set_self (List.getElem?_eq_some_iff.mp hobj).1⟩
  · exact .inr ⟨h, by rw [List.getElem?_set_ne (Ne.symm h)]; exact hx⟩

theorem getElem?_heap_append {heap : List SessionRecord} {obj : Nat} {r x : SessionRecord}
    (hx : heap[obj]? = some x) : (heap ++ [r])[obj]? = some x := by
  rw [List.getElem?_append_left (List.getElem?_eq_some_iff.mp hx).1]
  exact hx

theorem ObjectOf.set {heap : List SessionRecord} {sid : String} {obj obj' : Nat}
    {r r' : SessionRecord} (h : ObjectOf heap sid obj') (hobj : heap[obj]? = some r)
    (hsid : r'.sessionId = r.sessionId) : ObjectOf (heap.set obj r') sid obj' := by
  obtain ⟨x, hx, rfl⟩ := h
  obtain ⟨-, rfl, hget⟩ | ⟨-, hget⟩ := getElem?_heap_set (y := r') hobj hx
  · exact ⟨r', hget, hsid⟩
  · exact ⟨x, hget, rfl⟩

theorem ObjectOf.append {heap : List SessionRecord} {sid : String} {obj : Nat}
    (h : ObjectOf heap sid obj) (r : SessionRecord) : ObjectOf (heap ++ [r]) sid obj := by
  obtain ⟨x, hx, hsid⟩ := h
  exact ⟨x, getElem?_heap_append hx, hsid⟩

theorem objectOf_new (heap : List SessionRecord) (r : SessionRecord) :
    ObjectOf (heap ++ [r]) r.sessionId heap.length :=
  ⟨r, List.getElem?_concat_length, rfl⟩

/-- **Every object in use belongs to the session it is used for**, and every stored turn to a session
some call has named. -/
structure StoreTyped (s : StoreState) : Prop where
  /-- The live sessions. -/
  hot : ∀ e ∈ s.hot, ObjectOf s.heap e.1 e.2
  /-- The calls. -/
  ops : ∀ op ∈ s.ops, ∀ obj, op.phase.obj = some obj → ObjectOf s.heap op.sessionId obj
  /-- The stored turns. -/
  known : ∀ row ∈ s.db.turns, ∃ op ∈ s.ops, op.sessionId = row.sessionId

section Typed

variable {cfg : StoreSettings} {s s' : StoreState} {c : Nat} {op : StoreOp}

/-- The calls of a state in which one call has moved on. -/
theorem mem_setPhase {phase : RequestPhase} {op' : StoreOp}
    (h : op' ∈ (s.setPhase c op phase).ops) : op' ∈ s.ops ∨ op' = { op with phase := phase } :=
  List.mem_or_eq_of_mem_set h

/-- The call is there in its new phase. -/
theorem mem_setPhase_self {phase : RequestPhase} (hop : s.ops[c]? = some op) :
    { op with phase := phase } ∈ (s.setPhase c op phase).ops := Pool.mem_set_self hop _

/-- The other calls are there as they were. -/
theorem mem_setPhase_of_ne {phase : RequestPhase} {op' : StoreOp} (hmem : op' ∈ s.ops)
    (hne : s.ops[c]? ≠ some op') : op' ∈ (s.setPhase c op phase).ops := Pool.mem_set_of_ne hmem hne _

/-- A call that moves on still names its session. -/
theorem exists_mem_setPhase {phase : RequestPhase} {sid : String} (hop : s.ops[c]? = some op)
    (h : ∃ op' ∈ s.ops, op'.sessionId = sid) :
    ∃ op' ∈ (s.setPhase c op phase).ops, op'.sessionId = sid :=
  (Pool.exists_mem_set_iff (b := ({ op with phase := phase } : StoreOp)) hop Iff.rfl).mpr h

theorem StoreTyped.setPhase {phase : RequestPhase} (h : StoreTyped s) (hop : s.ops[c]? = some op)
    (hobj : ∀ obj, phase.obj = some obj → ObjectOf s.heap op.sessionId obj) :
    StoreTyped (s.setPhase c op phase) := by
  refine ⟨h.hot, fun op' hop' obj hphase => ?_, fun row hrow => ?_⟩
  · rcases mem_setPhase hop' with hold | rfl
    · exact h.ops op' hold obj hphase
    · exact hobj obj hphase
  · exact exists_mem_setPhase hop (h.known row hrow)

theorem StoreTyped.setObj {obj : Nat} {r y : SessionRecord} (h : StoreTyped s)
    (hobj : s.heap[obj]? = some r) (hsid : y.sessionId = r.sessionId) :
    StoreTyped (s.setObj obj y) :=
  ⟨fun e he => (h.hot e he).set hobj hsid,
    fun op hop obj' hphase => (h.ops op hop obj' hphase).set hobj hsid, h.known⟩

theorem StoreTyped.register {n : Nat} {r : SessionRecord} (h : StoreTyped s) :
    StoreTyped (s.register n r) := by
  refine ⟨fun e he => ?_, fun op hop obj hphase => (h.ops op hop obj hphase).append r, h.known⟩
  rcases mem_hotSet he with rfl | ⟨hold, -⟩
  · exact objectOf_new s.heap r
  · exact (h.hot e ((makeRoomFor_sublist s.hot).subset hold)).append r

/-- A new call that holds at most an object of its session. -/
theorem StoreTyped.newOp (h : StoreTyped s)
    (hobj : ∀ obj, op.phase.obj = some obj → ObjectOf s.heap op.sessionId obj) :
    StoreTyped { s with ops := s.ops ++ [op] } := by
  refine ⟨h.hot, fun op' hop' obj hphase => ?_, fun row hrow => ?_⟩
  · rcases List.mem_append.mp hop' with hold | hnew
    · exact h.ops op' hold obj hphase
    · rw [List.mem_singleton] at hnew
      subst hnew
      exact hobj obj hphase
  · obtain ⟨op', hmem, hsid⟩ := h.known row hrow
    exact ⟨op', List.mem_append_left _ hmem, hsid⟩

theorem StoreTyped.hotSubset {hot' : List HotEntry} (h : StoreTyped s)
    (hhot : ∀ e ∈ hot', e ∈ s.hot) : StoreTyped { s with hot := hot' } :=
  ⟨fun e he => h.hot e (hhot e he), h.ops, h.known⟩

theorem StoreTyped.withDb {db : SessionTables} (h : StoreTyped s)
    (hknown : ∀ row ∈ db.turns, ∃ op ∈ s.ops, op.sessionId = row.sessionId) :
    StoreTyped { s with db := db } := ⟨h.hot, h.ops, hknown⟩

theorem StoreTyped.upsertSession (h : StoreTyped s) (row : SessionRow) :
    StoreTyped { s with db := s.db.upsertSession row } := by
  refine h.withDb ?_
  rw [upsertSession_turns]
  exact h.known

/-- What a call holds is its session's. -/
theorem StoreTyped.objectOf (h : StoreTyped s) (hop : s.ops[c]? = some op) {o : Nat}
    (hobj : op.phase.obj = some o) : ObjectOf s.heap op.sessionId o :=
  h.ops op (List.mem_of_getElem? hop) o hobj

theorem StoreTyped.sessionId_eq (h : StoreTyped s) (hop : s.ops[c]? = some op) {o : Nat}
    {r : SessionRecord} (hphase : op.phase.obj = some o) (hobj : s.heap[o]? = some r) :
    r.sessionId = op.sessionId := by
  obtain ⟨r', hr', hsid⟩ := h.objectOf hop hphase
  rw [hobj, Option.some.injEq] at hr'
  rw [hr', hsid]

theorem storeTyped_move {l : StoreLabel} (h : StoreTyped s) (hmove : StoreMove cfg s l s') :
    StoreTyped s' := by
  cases hmove with
  | tick d => exact ⟨h.hot, h.ops, h.known⟩
  | create hfresh =>
    refine (h.register (n := cfg.maxSize)).newOp ?_
    rintro obj ⟨⟩
    exact objectOf_new s.heap _
  | commitCreate hop hphase hobj =>
    exact (h.upsertSession _).setPhase hop nofun
  | begin hkind hcreating => exact h.newOp nofun
  | disabled hop hphase httl => exact h.setPhase hop nofun
  | @hit c obj op now r hop hphase httl hhot hobj =>
    have hset := h.setObj (y := { r with lastActive := now }) hobj rfl
    have hobject := hset.hot _ hhot
    refine StoreTyped.setPhase ⟨fun e he => ?_, hset.ops, hset.known⟩ hop ?_
    · rcases List.mem_append.mp he with hold | hnew
      · exact hset.hot e (mem_hotErase.mp hold).1
      · rw [List.mem_singleton] at hnew
        rw [hnew]
        exact hobject
    · rintro obj' ⟨⟩
      exact hobject
  | miss hop hphase httl hhot => exact (h.hotSubset fun e he => hhot.subset he).setPhase hop nofun
  | rowMissing hop hphase hrow => exact h.setPhase hop nofun
  | rowLoaded hop hphase hrow => exact h.setPhase hop nofun
  | turnsLoaded hop hphase => exact h.setPhase hop nofun
  | install hop hphase =>
    refine (h.register (n := cfg.maxSize)).setPhase hop ?_
    rintro obj ⟨⟩
    exact objectOf_new s.heap _
  | startAsk hop hkind hphase hobj howns =>
    refine h.setPhase hop ?_
    rintro obj ⟨⟩
    exact h.objectOf hop (by rw [hphase]; rfl)
  | giveUp hop hphase houtcome hlabel => exact h.setPhase hop nofun
  | @append c obj index op turn memory outcome r hop hphase hobj hfresh hindex =>
    have hobject := h.objectOf hop (o := obj) (by rw [hphase]; rfl)
    refine (h.setObj (y := { r with
      turns := r.turns ++ [turn], memory := r.memory ++ [(turn.turnId, memory)] }) hobj
      rfl).setPhase hop ?_
    rintro obj' ⟨⟩
    exact hobject.set hobj rfl
  | @upsertSession c obj op turn r hop hphase hobj =>
    have hobject := h.objectOf hop (o := obj) (by rw [hphase]; rfl)
    refine ((h.setObj (y := { r with title := syncedTitle cfg r turn }) hobj rfl).upsertSession
      _).setPhase hop ?_
    rintro obj' ⟨⟩
    exact hobject.set hobj rfl
  | @saveTurn c obj op turn r hop hphase hobj =>
    have hsid := h.sessionId_eq hop (by rw [hphase]; rfl) hobj
    refine (h.withDb fun row hrow => ?_).setPhase hop nofun
    rcases List.mem_append.mp hrow with hold | hnew
    · exact h.known row (List.mem_filter.mp hold).1
    · rw [List.mem_singleton] at hnew
      exact ⟨op, List.mem_of_getElem? hop, by rw [hnew, hsid]⟩
  | removeHot hop hphase hobj howns =>
    exact (h.hotSubset fun e he => (mem_hotErase.mp he).1).setPhase hop nofun
  | deleteRows hop hphase =>
    refine (h.withDb fun row hrow => ?_).setPhase hop nofun
    exact h.known row (List.mem_filter.mp hrow).1

theorem storeTyped_init : StoreTyped .init where
  hot e he := by cases he
  ops op hop := by cases hop
  known row hrow := by cases hrow

end Typed

end LocalSqlAgent
