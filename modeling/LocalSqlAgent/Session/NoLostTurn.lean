import LocalSqlAgent.Session.FinalDeletion

/-! # No lost turn

A session's turns live in three places: the object in the live sessions, the objects questions in
flight hold, and the stored rows. A **session log** is the list of turns all three should tell of:
every object in use shows it, every stored turn is in it, and what is in it and not yet stored belongs
to a question still to be synced.

* **`TurnsKept`**: `get` returns exactly the stored turns of a session, each once, in order.
* **`turnsKept_of_runWhere`**: it holds, once every question is synced, in every run in which a lookup
  installs a rebuilt object only while no question holds another one and its turns are still the
  stored ones, and a question reads its index only while no other is between its index and its append.
* **`evictDuringAsk_not_turnsKept`**: an eviction while a question waits loses the turn. -/

namespace LocalSqlAgent

/-! ## The property -/

section

variable (cfg : StoreSettings)

/-- Every question has ended. -/
def AsksSynced (s : StoreState) : Prop :=
  ∀ op ∈ s.ops, op.isAsk = true → op.isFinished = true

instance (s : StoreState) : Decidable (AsksSynced s) := by
  unfold AsksSynced
  infer_instance

/-- Turns numbered from 1, no id twice. -/
structure Numbered (turns : List Turn) : Prop where
  /-- The `k`-th turn has index `k`. -/
  index : turns.map (·.index) = List.range' 1 turns.length
  /-- Every turn once. -/
  nodup : (turns.map (·.turnId)).Nodup

/-- **No turn is lost**: `get` returns a record of exactly the stored turns, numbered from 1; it finds
nothing only where no turn is stored. -/
def TurnsKept (s : StoreState) : Prop :=
  ∀ sid now,
    match s.get cfg sid now with
    | (s', some obj) => ∃ r, s'.heap[obj]? = some r ∧
        r.turns.map Turn.reloaded = s.db.loadTurns sid ∧ Numbered r.turns
    | (_, none) => s.db.loadTurns sid = []

/-- The turns a lookup has loaded. -/
def StoreOp.loadedTurns (op : StoreOp) : Option (List Turn) :=
  match op.phase with
  | .turnsLoaded _ _ turns _ => some turns
  | _ => none

/-- A question between its index and its append. -/
def StoreOp.isAsking (op : StoreOp) : Bool :=
  match op.phase with
  | .asking _ _ => true
  | _ => false

/-- **The condition on a step**: a lookup installs the object it has rebuilt only while no question
holds an object of the session and the loaded turns are the stored ones; a question reads its index
only while no other on the session is between its index and its append. -/
def KeepsOneObject (s : StoreState) : StoreLabel → Prop
  | .install c => ∀ op ∈ s.ops[c]?,
      (∀ op' ∈ s.ops, op'.sessionId = op.sessionId → op'.holds = none) ∧
        op.loadedTurns = some (s.db.loadTurns op.sessionId)
  | .startAsk c => ∀ op ∈ s.ops[c]?,
      ∀ op' ∈ s.ops, op'.sessionId = op.sessionId → op'.isAsking = false
  | _ => True

instance (s : StoreState) (l : StoreLabel) : Decidable (KeepsOneObject s l) := by
  unfold KeepsOneObject
  split <;> infer_instance

/-- The object a question is to append to, and the index it has read. -/
def StoreOp.asksAt (op : StoreOp) : Option (Nat × Nat) :=
  match op.phase with
  | .asking obj index => some (obj, index)
  | _ => none

/-- The first part of the condition. -/
def InstallsStored (s : StoreState) : StoreLabel → Prop
  | .install c => KeepsOneObject s (.install c)
  | _ => True

/-- What the second part is for: no turn has been appended since a question read its index. -/
def AppendsNext (s : StoreState) : StoreLabel → Prop
  | .append c _ _ => ∀ op ∈ s.ops[c]?, ∀ a ∈ op.asksAt, ∀ r ∈ s.heap[a.1]?, a.2 = r.turns.length + 1
  | _ => True

instance (s : StoreState) (l : StoreLabel) : Decidable (InstallsStored s l) := by
  unfold InstallsStored
  split <;> infer_instance

instance (s : StoreState) (l : StoreLabel) : Decidable (AppendsNext s l) := by
  unfold AppendsNext
  split <;> infer_instance

end

/-! ## The session log -/

/-- A turn appended to its object and not stored yet. -/
def StoreOp.pendingTurn (op : StoreOp) : Option Turn :=
  match op.phase with
  | .appended _ turn | .upserted _ turn => some turn
  | _ => none

/-- What a session's objects and rows have in common. -/
structure SessionView where
  /-- The log. -/
  log : List Turn
  /-- The one object in use. -/
  cur : Nat

/-- The object shows the log. -/
def ShowsLog (heap : List SessionRecord) (sid : String) (log : List Turn) (obj : Nat) : Prop :=
  ∃ r, heap[obj]? = some r ∧ r.sessionId = sid ∧ r.turns.map Turn.reloaded = log

/-- What a call on the session owes its log. -/
structure OpFollows (heap : List SessionRecord) (sid : String) (v : SessionView) (op : StoreOp) : Prop where
  /-- A question holds the one object, which shows the log. -/
  held : ∀ obj, op.holds = some obj → obj = v.cur ∧ ShowsLog heap sid v.log obj
  /-- An appended turn is in the log. -/
  pending : ∀ t, op.pendingTurn = some t → t.reloaded ∈ v.log

namespace SessionTables

/-- The stored turns of a session. -/
def rowsOf (db : SessionTables) (sid : String) : List TurnRow :=
  db.turns.filter fun r => r.sessionId = sid

end SessionTables

/-- **The objects, calls and rows of a session agree on its log.** -/
structure SessionAgrees (s : StoreState) (sid : String) (v : SessionView) : Prop where
  /-- The log is numbered. -/
  numbered : Numbered v.log
  /-- What is stored is in the log. -/
  stored : ∀ row ∈ s.db.rowsOf sid, row.turn.reloaded ∈ v.log
  /-- The primary key. -/
  keys : ((s.db.rowsOf sid).map fun row => row.turn.turnId).Nodup
  /-- What is in the log is stored or about to be. -/
  covered : ∀ t ∈ v.log, (∃ row ∈ s.db.rowsOf sid, row.turn.reloaded = t) ∨
    ∃ op ∈ s.ops, op.sessionId = sid ∧ ∃ u, op.pendingTurn = some u ∧ u.reloaded = t
  /-- The live object is the one in use. -/
  hot : ∀ e ∈ s.hot, e.1 = sid → e.2 = v.cur ∧ ShowsLog s.heap sid v.log e.2
  /-- The calls. -/
  ops : ∀ op ∈ s.ops, op.sessionId = sid → OpFollows s.heap sid v op

section Log

variable {cfg : StoreSettings} {s s' : StoreState} {sid : String} {v : SessionView} {c : Nat}
  {op : StoreOp}

theorem Numbered.index_lt {turns : List Turn} (h : Numbered turns) :
    turns.Pairwise fun t t' => t.index < t'.index := by
  have hlt : (turns.map (·.index)).Pairwise (· < ·) := by
    rw [h.index]
    exact List.pairwise_lt_range'
  exact List.pairwise_map.mp hlt

theorem Numbered.nil : Numbered [] := ⟨rfl, List.nodup_nil⟩

/-- The next turn keeps the numbering. -/
theorem Numbered.append {turns : List Turn} {t : Turn} (h : Numbered turns)
    (hindex : t.index = turns.length + 1) (hnew : t.turnId ∉ turns.map (·.turnId)) :
    Numbered (turns ++ [t]) := by
  constructor
  · rw [List.map_append, h.index, List.length_append, List.length_singleton, List.range'_concat,
      List.map_singleton, hindex, Nat.one_mul, Nat.add_comm]
  · rw [List.map_append, List.map_singleton]
    exact List.nodup_append.mpr ⟨h.nodup, List.nodup_singleton _, fun a ha b hb hab => hnew
      (by rw [List.mem_singleton.mp hb] at hab; exact hab ▸ ha)⟩

/-- A log is numbered as the turns of an object that shows it. -/
theorem numbered_of_map {turns log : List Turn} (h : Numbered log)
    (hmap : turns.map Turn.reloaded = log) : Numbered turns := by
  constructor
  · have hindex := h.index
    rw [← hmap, List.map_map, List.length_map] at hindex
    exact hindex
  · have hnodup := h.nodup
    rw [← hmap, List.map_map] at hnodup
    exact hnodup

/-- **The stored turns are the turns of the log that are stored**, in the log's order. -/
theorem SessionAgrees.loadTurns_eq_filter (h : SessionAgrees s sid v) :
    s.db.loadTurns sid = v.log.filter fun t => (s.db.rowsOf sid).any fun row => row.turn.reloaded = t := by
  have hperm : (s.db.turnRows sid).Perm (s.db.rowsOf sid) := List.perm_insertionSort _ _
  have hids : ((s.db.loadTurns sid).map (·.turnId)).Nodup := by
    have hmap : ((s.db.loadTurns sid).map (·.turnId)).Perm
        ((s.db.rowsOf sid).map fun row => row.turn.turnId) := by
      rw [SessionTables.loadTurns, List.map_map]
      exact hperm.map _
    exact hmap.nodup_iff.mpr h.keys
  have hmem : ∀ t, t ∈ s.db.loadTurns sid ↔
      t ∈ v.log.filter fun t => (s.db.rowsOf sid).any fun row => row.turn.reloaded = t := by
    intro t
    rw [List.mem_filter, List.any_eq_true]
    constructor
    · intro ht
      obtain ⟨row, hrow, rfl⟩ := List.mem_map.mp ht
      have hrow' := hperm.subset hrow
      exact ⟨h.stored row hrow', row, hrow', decide_eq_true rfl⟩
    · rintro ⟨-, row, hrow, heq⟩
      exact List.mem_map.mpr ⟨row, hperm.symm.subset hrow, of_decide_eq_true heq⟩
  have hsame := (List.perm_ext_iff_of_nodup (List.Nodup.of_map _ hids)
    ((List.Nodup.of_map _ h.numbered.nodup).filter _)).mpr hmem
  have hsorted : (s.db.loadTurns sid).Pairwise fun t t' => t.index ≤ t'.index := by
    rw [SessionTables.loadTurns, List.pairwise_map]
    exact List.pairwise_insertionSort (fun r r' : TurnRow => r.turn.index ≤ r'.turn.index) _
  have hlog := h.numbered.index_lt.filter fun t => (s.db.rowsOf sid).any fun row => row.turn.reloaded = t
  refine List.Perm.eq_of_pairwise ?_ hsorted (hlog.imp Nat.le_of_lt) hsame
  -- two turns of the log with one index are one turn
  intro t t' ht ht' hle hge
  have hindices : (v.log.map (·.index)).Nodup := by
    rw [h.numbered.index]
    exact List.nodup_range'
  exact List.inj_on_of_nodup_map hindices (List.mem_filter.mp ((hmem t).mp ht)).1 (List.mem_filter.mp ht').1
    (Nat.le_antisymm hle hge)

/-- **With nothing pending the stored turns are the log.** -/
theorem SessionAgrees.loadTurns_eq (h : SessionAgrees s sid v)
    (hidle : ∀ op ∈ s.ops, op.sessionId = sid → op.pendingTurn = none) :
    s.db.loadTurns sid = v.log := by
  rw [h.loadTurns_eq_filter, List.filter_eq_self]
  intro t ht
  rcases h.covered t ht with ⟨row, hrow, heq⟩ | ⟨op, hop, hsid, u, hu, -⟩
  · exact List.any_eq_true.mpr ⟨row, hrow, decide_eq_true heq⟩
  · rw [hidle op hop hsid] at hu
    cases hu

/-! ## Moving on -/

/-- Nothing the session's log rests on has changed, other than live objects forgotten. -/
structure SessionFrame (sid : String) (s s' : StoreState) : Prop where
  /-- The stored turns. -/
  rows : s'.db.rowsOf sid = s.db.rowsOf sid
  /-- The calls on the session. -/
  ops : ∀ op : StoreOp, op.sessionId = sid → (op ∈ s'.ops ↔ op ∈ s.ops)
  /-- The live object. -/
  hot : ∀ e ∈ s'.hot, e.1 = sid → e ∈ s.hot
  /-- The objects of the session. -/
  heap : ∀ log obj, ShowsLog s.heap sid log obj → ShowsLog s'.heap sid log obj

theorem OpFollows.heap {heap heap' : List SessionRecord} (h : OpFollows heap sid v op)
    (hheap : ∀ log obj, ShowsLog heap sid log obj → ShowsLog heap' sid log obj) :
    OpFollows heap' sid v op :=
  ⟨fun obj hobj => (h.held obj hobj).imp id (hheap v.log obj), h.pending⟩

theorem SessionAgrees.frame (h : SessionAgrees s sid v) (hframe : SessionFrame sid s s') :
    SessionAgrees s' sid v := by
  refine ⟨h.numbered, ?_, ?_, fun t ht => ?_, fun e he hsid => ?_, fun op hop hsid => ?_⟩
  · rw [hframe.rows]
    exact h.stored
  · rw [hframe.rows]
    exact h.keys
  · rw [hframe.rows]
    rcases h.covered t ht with hrow | ⟨op, hop, hsid, hpending⟩
    · exact .inl hrow
    · exact .inr ⟨op, (hframe.ops op hsid).mpr hop, hsid, hpending⟩
  · exact (h.hot e (hframe.hot e he hsid) hsid).imp id (hframe.heap v.log e.2)
  · exact (h.ops op ((hframe.ops op hsid).mp hop) hsid).heap hframe.heap

/-- **A call moves on** and pays what its new phase owes the log. -/
theorem SessionAgrees.setPhase {phase : RequestPhase} (h : SessionAgrees s sid v)
    (hop : s.ops[c]? = some op)
    (hfollows : op.sessionId = sid → OpFollows s.heap sid v { op with phase := phase })
    (hpending : op.sessionId = sid → ∀ u, op.pendingTurn = some u →
      (∃ row ∈ s.db.rowsOf sid, row.turn.reloaded = u.reloaded) ∨
        StoreOp.pendingTurn { op with phase := phase } = some u) :
    SessionAgrees (s.setPhase c op phase) sid v := by
  refine ⟨h.numbered, h.stored, h.keys, fun t ht => ?_, h.hot, fun op' hop' hsid => ?_⟩
  · rcases h.covered t ht with hrow | ⟨op', hop', hsid, u, hu, rfl⟩
    · exact .inl hrow
    · by_cases hsame : s.ops[c]? = some op'
      · -- the call's own pending turn
        obtain rfl := Option.some.inj (hop.symm.trans hsame)
        rcases hpending hsid u hu with hrow | hnew
        · exact .inl hrow
        · exact .inr ⟨_, mem_setPhase_self hop, hsid, u, hnew, rfl⟩
      · exact .inr ⟨op', mem_setPhase_of_ne hop' hsame, hsid, u, hu, rfl⟩
  · rcases mem_setPhase hop' with hold | rfl
    · exact h.ops op' hold hsid
    · exact hfollows hsid

theorem StoreOp.pendingTurn_eq {phase : RequestPhase} (hphase : op.phase = phase) :
    op.pendingTurn = StoreOp.pendingTurn { op with phase := phase } := by
  rw [← hphase]

theorem StoreOp.pendingTurn_of_holds (hholds : op.holds = none) : op.pendingTurn = none := by
  rw [StoreOp.pendingTurn]
  split
  · rename_i hphase
    rw [StoreOp.holds, hphase] at hholds
    cases hholds
  · rename_i hphase
    rw [StoreOp.holds, hphase] at hholds
    cases hholds
  · rfl

/-- A call that holds nothing owes nothing. -/
theorem opFollows_of_idle {heap : List SessionRecord} (hholds : op.holds = none) :
    OpFollows heap sid v op := by
  refine ⟨fun obj hobj => ?_, fun t ht => ?_⟩
  · rw [hholds] at hobj
    cases hobj
  · rw [StoreOp.pendingTurn_of_holds hholds] at ht
    cases ht

/-- A call with nothing pending moves on to a phase that holds nothing. -/
theorem SessionAgrees.setIdle {phase : RequestPhase} (h : SessionAgrees s sid v)
    (hop : s.ops[c]? = some op) (hidle : op.pendingTurn = none)
    (hholds : StoreOp.holds { op with phase := phase } = none) :
    SessionAgrees (s.setPhase c op phase) sid v := by
  refine h.setPhase hop (fun _ => opFollows_of_idle hholds) fun _ u hu => ?_
  rw [hidle] at hu
  cases hu

/-- A call with nothing pending comes to hold the one object. -/
theorem SessionAgrees.setHolding {phase : RequestPhase} (h : SessionAgrees s sid v)
    (hop : s.ops[c]? = some op) (hidle : op.pendingTurn = none)
    (hnone : StoreOp.pendingTurn { op with phase := phase } = none)
    (hheld : op.sessionId = sid → ∀ obj, StoreOp.holds { op with phase := phase } = some obj →
      obj = v.cur ∧ ShowsLog s.heap sid v.log obj) :
    SessionAgrees (s.setPhase c op phase) sid v := by
  refine h.setPhase hop (fun hsid => ⟨hheld hsid, fun t ht => ?_⟩) fun _ u hu => ?_
  · rw [hnone] at ht
    cases ht
  · rw [hidle] at hu
    cases hu

/-- What a call that found an object holds, if anything, is that object. -/
theorem StoreOp.eq_of_holds_found {obj obj' : Nat}
    (hholds : StoreOp.holds { op with phase := .found obj } = some obj') : obj = obj' := by
  simp only [StoreOp.holds] at hholds
  split at hholds
  · exact Option.some.inj hholds
  · cases hholds

/-! ## Frames -/

theorem ShowsLog.append {heap : List SessionRecord} {log : List Turn} {obj : Nat}
    (h : ShowsLog heap sid log obj) (r : SessionRecord) : ShowsLog (heap ++ [r]) sid log obj := by
  obtain ⟨x, hx, hshows⟩ := h
  exact ⟨x, getElem?_heap_append hx, hshows⟩

/-- Replacing an object by one of the same session and turns. -/
theorem ShowsLog.set_same {heap : List SessionRecord} {log : List Turn} {obj obj' : Nat}
    {r r' : SessionRecord} (h : ShowsLog heap sid log obj') (hobj : heap[obj]? = some r)
    (hsid : r'.sessionId = r.sessionId) (hturns : r'.turns = r.turns) :
    ShowsLog (heap.set obj r') sid log obj' := by
  obtain ⟨x, hx, hxsid, hxturns⟩ := h
  obtain ⟨-, rfl, hget⟩ | ⟨-, hget⟩ := getElem?_heap_set (y := r') hobj hx
  · exact ⟨r', hget, hsid.trans hxsid, by rw [hturns]; exact hxturns⟩
  · exact ⟨x, hget, hxsid, hxturns⟩

/-- Replacing an object of another session. -/
theorem ShowsLog.set_other {heap : List SessionRecord} {log : List Turn} {obj obj' : Nat}
    {r r' : SessionRecord} (h : ShowsLog heap sid log obj') (hobj : heap[obj]? = some r)
    (hsid : r.sessionId ≠ sid) : ShowsLog (heap.set obj r') sid log obj' := by
  obtain ⟨x, hx, hxsid, hxturns⟩ := h
  obtain ⟨-, rfl, -⟩ | ⟨-, hget⟩ := getElem?_heap_set (y := r') hobj hx
  · exact absurd hxsid hsid
  · exact ⟨x, hget, hxsid, hxturns⟩

/-- Changing nothing but the clock, session rows and live objects forgotten. -/
theorem SessionFrame.of_hot {l : List HotEntry} {d : SessionTables} {k : Int}
    (hturns : d.turns = s.db.turns) (hhot : ∀ e ∈ l, e ∈ s.hot) :
    SessionFrame sid s ⟨s.heap, l, d, k, s.ops⟩ :=
  ⟨by rw [SessionTables.rowsOf, SessionTables.rowsOf, hturns], fun _ _ => Iff.rfl,
    fun e he _ => hhot e he, fun _ _ h => h⟩

theorem SessionFrame.setObj {obj : Nat} {r r' : SessionRecord} (hobj : s.heap[obj]? = some r)
    (hsid : r'.sessionId = r.sessionId) (hturns : r'.turns = r.turns ∨ r.sessionId ≠ sid) :
    SessionFrame sid s (s.setObj obj r') :=
  ⟨rfl, fun _ _ => Iff.rfl, fun _ he _ => he, fun _ _ h =>
    hturns.elim (fun hsame => h.set_same hobj hsid hsame) fun hother => h.set_other hobj hother⟩

theorem SessionFrame.register {maxSize : Nat} {r : SessionRecord} (hother : r.sessionId ≠ sid) :
    SessionFrame sid s (s.register maxSize r) := by
  refine ⟨rfl, fun _ _ => Iff.rfl, fun e he hsid => ?_, fun _ _ h => h.append r⟩
  rcases mem_hotSet he with rfl | ⟨hold, -⟩
  · exact absurd hsid hother
  · exact (makeRoomFor_sublist s.hot).subset hold

theorem rowsOf_saveTurn_of_ne {sid' : String} {db : SessionTables} {turn : Turn}
    {memory : Option TurnMemory} (hne : sid ≠ sid') :
    (db.saveTurn sid' turn memory).rowsOf sid = db.rowsOf sid := by
  have hlast : ([⟨sid', turn.stored, memory.getD (.blank turn.turnId)⟩] : List TurnRow).filter
      (fun row => row.sessionId = sid) = [] :=
    List.filter_cons_of_neg (by simpa using Ne.symm hne)
  rw [SessionTables.rowsOf, SessionTables.saveTurn, List.filter_append, List.filter_filter, hlast,
    List.append_nil]
  refine List.filter_congr fun row _ => ?_
  by_cases hsid : row.sessionId = sid
  · simp [hsid, hne]
  · simp [hsid]

theorem rowsOf_deleteSession_of_ne {sid' : String} {db : SessionTables} (hne : sid ≠ sid') :
    (db.deleteSession sid').rowsOf sid = db.rowsOf sid := by
  rw [SessionTables.rowsOf, SessionTables.deleteSession, List.filter_filter]
  refine List.filter_congr fun row _ => ?_
  by_cases hsid : row.sessionId = sid
  · simp [hsid, hne]
  · simp [hsid]

/-- A new call on another session, or one that holds nothing. -/
theorem SessionAgrees.newOp (h : SessionAgrees s sid v)
    (hop : op.sessionId = sid → op.holds = none) :
    SessionAgrees { s with ops := s.ops ++ [op] } sid v := by
  refine ⟨h.numbered, h.stored, h.keys, fun t ht => ?_, h.hot, fun op' hop' hsid => ?_⟩
  · rcases h.covered t ht with hrow | ⟨op', hmem, hpending⟩
    · exact .inl hrow
    · exact .inr ⟨op', List.mem_append_left _ hmem, hpending⟩
  · rcases List.mem_append.mp hop' with hold | hnew
    · exact h.ops op' hold hsid
    · rw [List.mem_singleton] at hnew
      subst hnew
      exact opFollows_of_idle (hop hsid)

/-! ## The session's own steps -/

/-- A session nobody has named starts with an empty log. -/
theorem sessionAgrees_create {maxSize : Nat} {r : SessionRecord} (htyped : StoreTyped s)
    (hfresh : s.FreshSession r.sessionId) (hturns : r.turns = []) (hholds : op.holds = none) :
    SessionAgrees { s.register maxSize r with ops := s.ops ++ [op] } r.sessionId
      ⟨[], s.heap.length⟩ := by
  have hrows : s.db.rowsOf r.sessionId = [] := by
    -- a row's session has been named by a call
    rw [SessionTables.rowsOf, List.filter_eq_nil_iff]
    intro row hrow hsid
    obtain ⟨op', hop', hknown⟩ := htyped.known row hrow
    exact hfresh op' hop' (hknown.trans (by simpa using hsid))
  refine ⟨.nil, ?_, ?_, nofun, fun e he hsid => ?_, fun op' hop' hsid => ?_⟩
  · show ∀ row ∈ s.db.rowsOf r.sessionId, _
    rw [hrows]
    nofun
  · show ((s.db.rowsOf r.sessionId).map _).Nodup
    rw [hrows]
    exact List.nodup_nil
  · rcases mem_hotSet he with rfl | ⟨-, hne⟩
    · exact ⟨rfl, r, List.getElem?_concat_length, rfl, by rw [hturns]; rfl⟩
    · exact absurd hsid hne
  · rcases List.mem_append.mp hop' with hold | hnew
    · exact absurd hsid (hfresh op' hold)
    · rw [List.mem_singleton.mp hnew]
      exact opFollows_of_idle hholds

/-- The object a lookup rebuilds from the stored turns becomes the one in use. -/
theorem SessionAgrees.install {n : Nat} {r : SessionRecord}
    (h : SessionAgrees s r.sessionId v)
    (hidle : ∀ op' ∈ s.ops, op'.sessionId = r.sessionId → op'.holds = none)
    (hturns : r.turns = s.db.loadTurns r.sessionId) :
    SessionAgrees (s.register n r) r.sessionId { v with cur := s.heap.length } ∧
      ShowsLog (s.register n r).heap r.sessionId v.log s.heap.length := by
  -- no question has a turn pending, so what is stored is the whole log
  have hlog : s.db.loadTurns r.sessionId = v.log :=
    h.loadTurns_eq fun op' hop' hsid => StoreOp.pendingTurn_of_holds (hidle op' hop' hsid)
  have hshows : ShowsLog (s.register n r).heap r.sessionId v.log s.heap.length := by
    refine ⟨r, List.getElem?_concat_length, rfl, ?_⟩
    rw [hturns, ← hlog, SessionTables.loadTurns, List.map_map]
    exact List.map_congr_left fun row _ => Turn.reloaded_reloaded row.turn
  refine ⟨⟨h.numbered, h.stored, h.keys, h.covered, fun e he hsid => ?_, fun op hop hsid => ?_⟩,
    hshows⟩
  · rcases mem_hotSet he with rfl | ⟨-, hne⟩
    · exact ⟨rfl, hshows⟩
    · exact absurd hsid hne
  · exact opFollows_of_idle (hidle op hop hsid)

/-- **The append**: the object and the log grow by the same turn. -/
theorem SessionAgrees.append {obj index : Nat} {r : SessionRecord} {turn : Turn}
    {memory : List (String × TurnMemory)} (h : SessionAgrees s op.sessionId v)
    (hop : s.ops[c]? = some op) (hphase : op.phase = .asking obj index)
    (hobj : s.heap[obj]? = some r) (hfresh : s.FreshTurn turn.turnId)
    (hnext : turn.index = r.turns.length + 1) : SessionAgrees
      ((s.setObj obj { r with turns := r.turns ++ [turn], memory := memory }).setPhase c op
        (.appended obj turn)) op.sessionId { v with log := v.log ++ [turn.reloaded] } := by
  have hholds : op.holds = some obj := by rw [StoreOp.holds, hphase]
  obtain ⟨hcur, x, hx, hsid, hlog⟩ := (h.ops op (List.mem_of_getElem? hop) rfl).held obj hholds
  rw [hobj, Option.some.injEq] at hx
  subst hx
  have hlen := (List.getElem?_eq_some_iff.mp hobj).1
  -- every object that showed the log is this one
  have hshows : ∀ obj', obj' = v.cur →
      ShowsLog (s.setObj obj { r with turns := r.turns ++ [turn], memory := memory }).heap
        op.sessionId (v.log ++ [turn.reloaded]) obj' := by
    rintro obj' rfl
    rw [← hcur]
    refine ⟨_, List.getElem?_set_self hlen, hsid, ?_⟩
    rw [List.map_append, hlog, List.map_singleton]
  have hnew : turn.turnId ∉ v.log.map (·.turnId) := by
    intro hmem
    rw [← hlog, List.map_map] at hmem
    obtain ⟨t, ht, hid⟩ := List.mem_map.mp hmem
    exact hfresh.1 r (List.mem_of_getElem? hobj) t ht hid
  refine ⟨h.numbered.append ?_ hnew, fun row hrow => ?_, h.keys, fun t ht => ?_, fun e he hesid => ?_,
    fun op' hop' hop'sid => ?_⟩
  · rw [Turn.reloaded_index, hnext, ← hlog, List.length_map]
  · exact List.mem_append_left _ (h.stored row hrow)
  · rcases List.mem_append.mp ht with hold | hlast
    · have hpending : op.pendingTurn = none := StoreOp.pendingTurn_eq hphase
      rcases h.covered t hold with hrow | ⟨op', hop', hsid', u, hu, rfl⟩
      · exact .inl hrow
      · refine .inr ⟨op', mem_setPhase_of_ne hop' fun hsame => ?_, hsid', u, hu, rfl⟩
        rw [← Option.some.inj (hop.symm.trans hsame), hpending] at hu
        cases hu
    · -- the new turn is the call's own
      exact .inr ⟨_, mem_setPhase_self hop, rfl, turn, rfl, (List.mem_singleton.mp hlast).symm⟩
  · obtain ⟨hecur, -⟩ := h.hot e he hesid
    exact ⟨hecur, hshows e.2 hecur⟩
  · rcases mem_setPhase hop' with hold | rfl
    · have hother := h.ops op' hold hop'sid
      refine ⟨fun obj' hobj' => ?_, fun t ht => ?_⟩
      · obtain ⟨hcur', -⟩ := hother.held obj' hobj'
        exact ⟨hcur', hshows obj' hcur'⟩
      · exact List.mem_append_left _ (hother.pending t ht)
    · refine ⟨fun obj' hobj' => ?_, fun t ht => ?_⟩
      · obtain rfl : obj = obj' := Option.some.inj hobj'
        exact ⟨hcur, hshows obj hcur⟩
      · obtain rfl : turn = t := Option.some.inj ht
        exact List.mem_append_right _ (List.mem_singleton_self _)

theorem mem_rowsOf_saveTurn {db : SessionTables} {turn : Turn} {memory : Option TurnMemory}
    {row : TurnRow} (hrow : row ∈ (db.saveTurn sid turn memory).rowsOf sid) :
    (row ∈ db.rowsOf sid ∧ row.turn.turnId ≠ turn.turnId) ∨ row.turn = turn.stored := by
  obtain ⟨hmem, hsid⟩ := List.mem_filter.mp hrow
  rcases List.mem_append.mp hmem with hold | hlast
  · obtain ⟨hold, hne⟩ := List.mem_filter.mp hold
    refine .inl ⟨List.mem_filter.mpr ⟨hold, hsid⟩, fun hid => ?_⟩
    simp only [decide_eq_true_iff] at hsid hne
    exact hne ⟨hsid, hid⟩
  · rw [List.mem_singleton] at hlast
    exact .inr (by rw [hlast])

/-- **The save**: a turn of the log is stored. -/
theorem SessionAgrees.saveTurn {turn : Turn} {m : Option TurnMemory}
    (h : SessionAgrees s sid v) (hturn : turn.reloaded ∈ v.log) :
    SessionAgrees { s with db := s.db.saveTurn sid turn m } sid v := by
  have hnew : (⟨sid, turn.stored, m.getD (.blank turn.turnId)⟩ : TurnRow) ∈
      (s.db.saveTurn sid turn m).rowsOf sid :=
    List.mem_filter.mpr ⟨List.mem_append_right _ (List.mem_singleton_self _), by simp⟩
  refine ⟨h.numbered, fun row hrow => ?_, ?_, fun t ht => ?_, h.hot, h.ops⟩
  · rcases mem_rowsOf_saveTurn hrow with ⟨hold, -⟩ | hlast
    · exact h.stored row hold
    · rw [hlast, Turn.reloaded_stored]
      exact hturn
  · have hrows : (s.db.saveTurn sid turn m).rowsOf sid =
        ((s.db.rowsOf sid).filter fun row => row.turn.turnId ≠ turn.turnId) ++
          [⟨sid, turn.stored, m.getD (.blank turn.turnId)⟩] := by
      rw [SessionTables.rowsOf, SessionTables.saveTurn, List.filter_append, List.filter_filter,
        SessionTables.rowsOf, List.filter_filter]
      congr 1
      · refine List.filter_congr fun row _ => ?_
        by_cases hsid : row.sessionId = sid
        · simp [hsid]
        · simp [hsid]
      · exact List.filter_cons_of_pos (by simp)
    show (List.map _ ((s.db.saveTurn sid turn m).rowsOf sid)).Nodup
    rw [hrows, List.map_append, List.nodup_append]
    refine ⟨(List.filter_sublist.map _).nodup h.keys, List.nodup_singleton _, ?_⟩
    rintro id hid id' hid' rfl
    obtain ⟨row, hrow, rfl⟩ := List.mem_map.mp hid
    have hne := (List.mem_filter.mp hrow).2
    simp only [decide_eq_true_iff] at hne
    exact hne (List.mem_singleton.mp hid')
  · rcases h.covered t ht with ⟨row, hrow, rfl⟩ | hpending
    · by_cases hid : row.turn.turnId = turn.turnId
      -- the row replaced was this turn's
      · have hsame : row.turn.reloaded = turn.reloaded :=
          List.inj_on_of_nodup_map h.numbered.nodup (h.stored row hrow) hturn hid
        exact .inl ⟨_, hnew, by rw [hsame, Turn.reloaded_stored]⟩
      · obtain ⟨hmem, hsid⟩ := List.mem_filter.mp hrow
        refine .inl ⟨row, List.mem_filter.mpr ⟨List.mem_append_left _ ?_, hsid⟩, rfl⟩
        exact List.mem_filter.mpr ⟨hmem, by simp [hid]⟩
    · exact .inr hpending

/-- Deleting the rows of a session nothing holds empties its log. -/
theorem SessionAgrees.deleteSession
    (hidle : ∀ op ∈ s.ops, op.sessionId = sid → op.holds = none)
    (hhot : ∀ e ∈ s.hot, e.1 ≠ sid) :
    SessionAgrees { s with db := s.db.deleteSession sid } sid ⟨[], 0⟩ := by
  have hrows : (s.db.deleteSession sid).rowsOf sid = [] := by
    rw [SessionTables.rowsOf, SessionTables.deleteSession, List.filter_filter,
      List.filter_eq_nil_iff]
    intro row _
    simp
  refine ⟨.nil, ?_, ?_, nofun, fun e he hsid => absurd hsid (hhot e he), fun op hop hsid => ?_⟩
  · show ∀ row ∈ (s.db.deleteSession sid).rowsOf sid, _
    rw [hrows]
    nofun
  · show (((s.db.deleteSession sid).rowsOf sid).map _).Nodup
    rw [hrows]
    exact List.nodup_nil
  · exact opFollows_of_idle (hidle op hop hsid)

/-! ## Steps -/

/-- **The step lemma**: under the conditions every session's objects, calls and rows go on agreeing. -/
theorem sessionAgrees_move {l : StoreLabel} (htyped : StoreTyped s)
    (h : ∀ sid, ∃ v, SessionAgrees s sid v) (halone : DeletesAlone cfg s l)
    (hstored : InstallsStored s l) (hnext : AppendsNext s l) (hmove : StoreMove cfg s l s') (sid : String) :
    ∃ v, SessionAgrees s' sid v := by
  obtain ⟨v, hv⟩ := h sid
  cases hmove with
  | tick d => exact ⟨v, hv.frame (.of_hot rfl fun _ he => he)⟩
  | @create sid' ownerId hfresh =>
    by_cases hsid : sid' = sid
    · subst hsid
      exact ⟨_, sessionAgrees_create
        (r := ⟨sid', s.clock, s.clock, [], [], ownerId, none⟩) htyped hfresh rfl rfl⟩
    · exact ⟨v, (hv.frame (.register hsid)).newOp fun heq => absurd heq hsid⟩
  | @commitCreate c obj op r hop hphase hobj =>
    refine ⟨v, (hv.frame (.of_hot (d := s.db.upsertSession _) (k := s.clock)
      upsertSession_turns fun _ he => he)).setIdle hop ?_ rfl⟩
    exact StoreOp.pendingTurn_eq hphase
  | begin hkind hcreating => exact ⟨v, hv.newOp fun _ => rfl⟩
  | disabled hop hphase httl =>
    exact ⟨v, hv.setIdle hop (StoreOp.pendingTurn_eq hphase) rfl⟩
  | @hit c obj op now r hop hphase httl hhot hobj =>
    have hframe : SessionAgrees (s.setObj obj { r with lastActive := now }) sid v :=
      hv.frame (.setObj hobj rfl (.inl rfl))
    have hlive : op.sessionId = sid → obj = v.cur ∧
        ShowsLog (s.heap.set obj { r with lastActive := now }) sid v.log obj :=
      fun hsid => hframe.hot _ hhot hsid
    have htouched : SessionAgrees
        { s with
          heap := s.heap.set obj { r with lastActive := now }
          hot := hotErase op.sessionId s.hot ++ [(op.sessionId, obj)] } sid v := by
      refine ⟨hframe.numbered, hframe.stored, hframe.keys, hframe.covered, fun e he hsid => ?_,
        hframe.ops⟩
      rcases List.mem_append.mp he with hold | hlast
      · exact hframe.hot e (mem_hotErase.mp hold).1 hsid
      · rw [List.mem_singleton] at hlast
        subst hlast
        exact hlive hsid
    refine ⟨v, htouched.setHolding hop (StoreOp.pendingTurn_eq hphase) rfl
      fun hsid obj' hholds => ?_⟩
    obtain rfl := StoreOp.eq_of_holds_found hholds
    exact hlive hsid
  | miss hop hphase httl hhot =>
    exact ⟨v, (hv.frame (.of_hot (k := s.clock) rfl fun e he => hhot.subset he)).setIdle hop
      (StoreOp.pendingTurn_eq hphase) rfl⟩
  | rowMissing hop hphase hrow =>
    exact ⟨v, hv.setIdle hop (StoreOp.pendingTurn_eq hphase) rfl⟩
  | rowLoaded hop hphase hrow =>
    exact ⟨v, hv.setIdle hop (StoreOp.pendingTurn_eq hphase) rfl⟩
  | turnsLoaded hop hphase =>
    exact ⟨v, hv.setIdle hop (StoreOp.pendingTurn_eq hphase) rfl⟩
  | @install c op now row turns memory hop hphase =>
    have hpending : op.pendingTurn = none :=
      StoreOp.pendingTurn_eq hphase
    obtain ⟨hidle, hturns⟩ := hstored op hop
    rw [StoreOp.loadedTurns, hphase, Option.some.injEq] at hturns
    by_cases hsid : op.sessionId = sid
    · subst hsid
      obtain ⟨hnew, hshows⟩ := SessionAgrees.install (n := cfg.maxSize)
        (r := StoreState.rebuilt op.sessionId now row turns memory) hv hidle hturns
      refine ⟨_, hnew.setHolding hop hpending rfl fun _ obj hholds => ?_⟩
      obtain rfl := StoreOp.eq_of_holds_found hholds
      exact ⟨rfl, hshows⟩
    · refine ⟨v, (hv.frame (.register (r := StoreState.rebuilt _ _ _ _ _) hsid)).setPhase hop
        (fun heq => absurd heq hsid) fun heq => absurd heq hsid⟩
  | @startAsk c obj op question r hop hkind hphase hobj howns =>
    refine ⟨v, hv.setHolding hop (StoreOp.pendingTurn_eq hphase) rfl fun hsid obj' hholds => ?_⟩
    obtain rfl : obj = obj' := Option.some.inj hholds
    exact (hv.ops op (List.mem_of_getElem? hop) hsid).held obj (by rw [StoreOp.holds, hphase, hkind])
  | @giveUp l c op outcome hop hphase houtcome hlabel =>
    refine ⟨v, hv.setIdle hop ?_ rfl⟩
    obtain ⟨obj, hfound | ⟨index, hasking⟩⟩ := hphase
    · rw [StoreOp.pendingTurn, hfound]
    · rw [StoreOp.pendingTurn, hasking]
  | @append c obj index op turn memory outcome r hop hphase hobj hfresh hindex =>
    by_cases hsid : op.sessionId = sid
    · subst hsid
      have hat : (obj, index) ∈ op.asksAt := by rw [StoreOp.asksAt, hphase, Option.mem_some_iff]
      exact ⟨_, hv.append hop hphase hobj hfresh (hindex.trans (hnext op hop _ hat r hobj))⟩
    · have hrsid := htyped.sessionId_eq hop (o := obj) (by rw [hphase]; rfl) hobj
      have hset : SessionAgrees (s.setObj obj { r with
          turns := r.turns ++ [turn], memory := r.memory ++ [(turn.turnId, memory)] }) sid v :=
        hv.frame (.setObj hobj rfl (.inr (by rw [hrsid]; exact hsid)))
      exact ⟨v, hset.setPhase hop (fun heq => absurd heq hsid) fun heq => absurd heq hsid⟩
  | @upsertSession c obj op turn r hop hphase hobj =>
    have hset : SessionAgrees (s.setObj obj { r with title := syncedTitle cfg r turn }) sid v :=
      hv.frame (.setObj hobj rfl (.inl rfl))
    have hframe : SessionAgrees
        { s.setObj obj { r with title := syncedTitle cfg r turn } with
          db := s.db.upsertSession ⟨r.sessionId, r.ownerId, syncedTitle cfg r turn, r.createdAt⟩ }
        sid v := hset.frame (.of_hot upsertSession_turns fun _ he => he)
    refine ⟨v, hframe.setPhase hop (fun hsid => ?_) fun hsid u hu => ?_⟩
    · have hfollows := hframe.ops op (List.mem_of_getElem? hop) hsid
      refine ⟨fun obj' hholds => hfollows.held obj' ?_, fun t ht => hfollows.pending t ?_⟩
      · rw [← hholds, StoreOp.holds, hphase]
        rfl
      · rw [← ht, StoreOp.pendingTurn, hphase]
        rfl
    · rw [StoreOp.pendingTurn, hphase] at hu
      exact .inr hu
  | @saveTurn c obj op turn r hop hphase hobj =>
    have hrsid := htyped.sessionId_eq hop (o := obj) (by rw [hphase]; rfl) hobj
    by_cases hsid : op.sessionId = sid
    · subst hsid
      have hturn : turn.reloaded ∈ v.log :=
        (hv.ops op (List.mem_of_getElem? hop) rfl).pending turn (StoreOp.pendingTurn_eq hphase)
      have hsaved := hv.saveTurn (m := r.memoryFor turn.turnId) hturn
      rw [hrsid]
      refine ⟨v, hsaved.setPhase hop (fun _ => opFollows_of_idle rfl) fun _ u hu => .inl ?_⟩
      obtain rfl : turn = u := by
        rw [StoreOp.pendingTurn, hphase] at hu
        exact Option.some.inj hu
      refine ⟨⟨op.sessionId, turn.stored, (r.memoryFor turn.turnId).getD (.blank turn.turnId)⟩, ?_,
        Turn.reloaded_stored turn⟩
      exact List.mem_filter.mpr ⟨List.mem_append_right _ (List.mem_singleton_self _), by simp⟩
    · have hframe : SessionFrame sid s
          { s with db := s.db.saveTurn r.sessionId turn (r.memoryFor turn.turnId) } :=
        ⟨rowsOf_saveTurn_of_ne (by rw [hrsid]; exact Ne.symm hsid), fun _ _ => Iff.rfl,
          fun _ he _ => he, fun _ _ hs => hs⟩
      exact ⟨v, (hv.frame hframe).setPhase hop (fun heq => absurd heq hsid)
        fun heq => absurd heq hsid⟩
  | @removeHot c obj op r hop hphase hobj howns =>
    refine ⟨v, (hv.frame (.of_hot (l := hotErase op.sessionId s.hot) (k := s.clock) rfl
      fun e he => (mem_hotErase.mp he).1)).setIdle hop (StoreOp.pendingTurn_eq hphase) rfl⟩
  | @deleteRows c op hop hphase =>
    obtain ⟨hrevives, hhot⟩ := halone op hop
    have hpending : op.pendingTurn = none := StoreOp.pendingTurn_eq hphase
    by_cases hsid : op.sessionId = sid
    · subst hsid
      refine ⟨_, (SessionAgrees.deleteSession (fun op' hop' heq => ?_) hhot).setIdle hop hpending
        rfl⟩
      cases hholds : op'.holds with
      | none => rfl
      | some obj =>
        have hrev := StoreOp.revives_of_holds hholds
        rw [hrevives op' hop' heq] at hrev
        cases hrev
    · have hframe : SessionFrame sid s { s with db := s.db.deleteSession op.sessionId } :=
        ⟨rowsOf_deleteSession_of_ne (Ne.symm hsid), fun _ _ => Iff.rfl, fun _ he _ => he,
          fun _ _ hs => hs⟩
      exact ⟨v, (hv.frame hframe).setIdle hop hpending rfl⟩

/-! ## Questions take turns -/

/-- **No two questions on a session are about to append**, and the one that is has the next index. -/
structure AskersApart (s : StoreState) : Prop where
  /-- Its index. -/
  next : ∀ op ∈ s.ops, ∀ a ∈ op.asksAt, ∀ r ∈ s.heap[a.1]?, a.2 = r.turns.length + 1
  /-- No other. -/
  apart : ∀ (c c' : Nat) (op op' : StoreOp), s.ops[c]? = some op → s.ops[c']? = some op' →
    op.isAsking = true → op'.isAsking = true → op'.sessionId = op.sessionId → c' = c

theorem StoreOp.isAsking_of_asksAt {a : Nat × Nat} (h : op.asksAt = some a) :
    op.isAsking = true ∧ op.phase.obj = some a.1 := by
  unfold StoreOp.asksAt at h
  split at h
  · rename_i hphase
    cases h
    rw [StoreOp.isAsking, hphase]
    exact ⟨rfl, rfl⟩
  · cases h

theorem StoreOp.asksAt_of_not_isAsking (h : op.isAsking = false) : op.asksAt = none := by
  cases hasks : op.asksAt with
  | none => rfl
  | some a =>
    rw [(StoreOp.isAsking_of_asksAt hasks).1] at h
    cases h

theorem AskersApart.congr (h : AskersApart s) (hheap : s'.heap = s.heap) (hops : s'.ops = s.ops) :
    AskersApart s' :=
  ⟨by rw [hheap, hops]; exact h.next, by rw [hops]; exact h.apart⟩

/-- Objects keep their turns, and there may be new ones. -/
theorem AskersApart.heap (h : AskersApart s) (htyped : StoreTyped s) (hops : s'.ops = s.ops)
    (hheap : ∀ (obj : Nat) (r : SessionRecord), s.heap[obj]? = some r →
      ∃ r', s'.heap[obj]? = some r' ∧ r'.turns = r.turns) : AskersApart s' := by
  refine ⟨fun op hop a ha r hr => ?_, by rw [hops]; exact h.apart⟩
  rw [hops] at hop
  obtain ⟨x, hx, -⟩ := htyped.ops op hop a.1 (StoreOp.isAsking_of_asksAt ha).2
  obtain ⟨r', hr', hturns⟩ := hheap a.1 x hx
  obtain rfl : r' = r := Option.some.inj (hr'.symm.trans hr)
  rw [hturns]
  exact h.next op hop a ha x hx

theorem AskersApart.setPhase {p : RequestPhase} (h : AskersApart s)
    (hnew : StoreOp.isAsking { op with phase := p } = false) : AskersApart (s.setPhase c op p) := by
  constructor
  · intro op' hop' a ha r hr
    rcases mem_setPhase hop' with hold | rfl
    · exact h.next op' hold a ha r hr
    · rw [StoreOp.asksAt_of_not_isAsking hnew] at ha
      cases ha
  · intro c₁ c₂ op₁ op₂ h₁ h₂ hask₁ hask₂ hsid
    rcases getElem?_setPhase h₁ with ⟨rfl, rfl⟩ | ⟨-, hold₁⟩
    · rw [hnew] at hask₁
      cases hask₁
    · rcases getElem?_setPhase h₂ with ⟨rfl, rfl⟩ | ⟨-, hold₂⟩
      · rw [hnew] at hask₂
        cases hask₂
      · exact h.apart c₁ c₂ op₁ op₂ hold₁ hold₂ hask₁ hask₂ hsid

theorem AskersApart.newOp (h : AskersApart s) (hnew : op.isAsking = false) :
    AskersApart { s with ops := s.ops ++ [op] } := by
  have hold : ∀ (c : Nat) (op' : StoreOp), (s.ops ++ [op])[c]? = some op' → op'.isAsking = true →
      s.ops[c]? = some op' := by
    intro c op' hop' hask
    rcases Pool.getElem?_append_singleton hop' with hold | ⟨-, heq⟩
    · exact hold
    · rw [heq, hnew] at hask
      cases hask
  constructor
  · intro op' hop' a ha r hr
    obtain ⟨c, hc⟩ := List.mem_iff_getElem?.mp hop'
    exact h.next op' (List.mem_of_getElem? (hold c op' hc (StoreOp.isAsking_of_asksAt ha).1)) a ha r hr
  · exact fun c c' op op' hop hop' hask hask' =>
      h.apart c c' op op' (hold c op hop hask) (hold c' op' hop' hask') hask hask'

/-- A question reads the next index while no other is about to append. -/
theorem AskersApart.startAsk {obj : Nat} {r : SessionRecord} (h : AskersApart s)
    (hobj : s.heap[obj]? = some r)
    (hnone : ∀ op' ∈ s.ops, op'.sessionId = op.sessionId → op'.isAsking = false) :
    AskersApart (s.setPhase c op (.asking obj (r.turns.length + 1))) := by
  constructor
  · intro op' hop' a ha x hx
    rcases mem_setPhase hop' with hold | rfl
    · exact h.next op' hold a ha x hx
    · cases ha
      obtain rfl : r = x := Option.some.inj (hobj.symm.trans hx)
      rfl
  · intro c₁ c₂ op₁ op₂ h₁ h₂ hask₁ hask₂ hsid
    -- of two that ask in one session, both are the new one, or none is
    rcases getElem?_setPhase h₁ with ⟨rfl, rfl⟩ | ⟨-, hold₁⟩ <;>
      rcases getElem?_setPhase h₂ with ⟨rfl, rfl⟩ | ⟨-, hold₂⟩
    · rfl
    · rw [hnone op₂ (List.mem_of_getElem? hold₂) hsid] at hask₂
      cases hask₂
    · rw [hnone op₁ (List.mem_of_getElem? hold₁) hsid.symm] at hask₁
      cases hask₁
    · exact h.apart c₁ c₂ op₁ op₂ hold₁ hold₂ hask₁ hask₂ hsid

/-- The one question about to append does so. -/
theorem AskersApart.append {obj : Nat} {r y : SessionRecord} {turn : Turn} (h : AskersApart s)
    (htyped : StoreTyped s) (hop : s.ops[c]? = some op) (hasking : op.isAsking = true)
    (hholds : op.phase.obj = some obj) (hobj : s.heap[obj]? = some r) :
    AskersApart ((s.setObj obj y).setPhase c op (.appended obj turn)) := by
  constructor
  · intro op' hop' a ha x hx
    rcases mem_setPhase hop' with hold | rfl
    · obtain ⟨c', hc'⟩ := List.mem_iff_getElem?.mp hop'
      obtain ⟨hask, hholds'⟩ := StoreOp.isAsking_of_asksAt ha
      rcases getElem?_setPhase hc' with ⟨-, rfl⟩ | ⟨hne, hc'⟩
      · cases ha
      -- another question about to append holds an object of another session
      · have hother : a.1 ≠ obj := by
          rintro heq
          refine hne (h.apart c c' op op' hop hc' hasking hask ?_)
          rw [← htyped.sessionId_eq hop hholds hobj, ← htyped.sessionId_eq hc' hholds' (heq ▸ hobj)]
        exact h.next op' hold a ha x ((List.getElem?_set_ne (Ne.symm hother)).symm.trans hx)
    · cases ha
  · have hmoved : AskersApart (s.setPhase c op (.appended obj turn)) := h.setPhase rfl
    exact hmoved.apart

theorem askersApart_move {l : StoreLabel} (htyped : StoreTyped s) (h : AskersApart s)
    (hone : KeepsOneObject s l) (hmove : StoreMove cfg s l s') : AskersApart s' := by
  -- a section that changes no turns
  have hset : ∀ {obj : Nat} {r y : SessionRecord} {hot : List HotEntry} {db : SessionTables},
      s.heap[obj]? = some r → y.turns = r.turns →
        AskersApart ⟨s.heap.set obj y, hot, db, s.clock, s.ops⟩ := by
    intro obj r y hot db hobj hturns
    refine h.heap htyped rfl fun obj' x hx => ?_
    obtain ⟨-, rfl, hget⟩ | ⟨-, hget⟩ := getElem?_heap_set (y := y) hobj hx
    · exact ⟨y, hget, hturns⟩
    · exact ⟨x, hget, rfl⟩
  have hregister : ∀ r : SessionRecord, AskersApart (s.register cfg.maxSize r) := fun r =>
    h.heap htyped rfl fun obj x hx => ⟨x, getElem?_heap_append hx, rfl⟩
  cases hmove with
  | tick d => exact h.congr rfl rfl
  | create hfresh => exact (hregister _).newOp rfl
  | commitCreate hop hphase hobj => exact (h.setPhase (p := .finished .created) rfl).congr rfl rfl
  | begin hkind hcreating => exact h.newOp rfl
  | disabled hop hphase httl => exact h.setPhase rfl
  | hit hop hphase httl hhot hobj => exact AskersApart.setPhase (hset hobj rfl) rfl
  | miss hop hphase httl hhot => exact AskersApart.setPhase (h.congr rfl rfl) rfl
  | rowMissing hop hphase hrow => exact h.setPhase rfl
  | rowLoaded hop hphase hrow => exact h.setPhase rfl
  | turnsLoaded hop hphase => exact h.setPhase rfl
  | install hop hphase => exact (hregister _).setPhase rfl
  | startAsk hop hkind hphase hobj howns => exact h.startAsk hobj (hone _ hop)
  | giveUp hop hphase houtcome hlabel => exact h.setPhase rfl
  | append hop hphase hobj hfresh hindex =>
    exact h.append htyped hop (by rw [StoreOp.isAsking, hphase]) (by rw [hphase]; rfl) hobj
  | @upsertSession c obj op turn r hop hphase hobj =>
    have hmoved : AskersApart (s.setObj obj { r with title := syncedTitle cfg r turn }) := hset hobj rfl
    exact (hmoved.setPhase (p := .upserted obj turn) rfl).congr rfl rfl
  | saveTurn hop hphase hobj => exact (h.setPhase (p := .finished .synced) rfl).congr rfl rfl
  | removeHot hop hphase hobj howns => exact (h.setPhase (p := .hotRemoved) rfl).congr rfl rfl
  | deleteRows hop hphase => exact (h.setPhase (p := .finished .deleted) rfl).congr rfl rfl

/-- **Then every append is the next turn.** -/
theorem AskersApart.appendsNext (h : AskersApart s) (l : StoreLabel) : AppendsNext s l := by
  cases l with
  | append c turnId outcome => exact fun op hop => h.next op (List.mem_of_getElem? hop)
  | _ => trivial

theorem installsStored_of_keepsOneObject {l : StoreLabel} (h : KeepsOneObject s l) : InstallsStored s l := by
  cases l with
  | install c => exact h
  | _ => trivial

/-! ## What a call may hold -/

/-- The call's lookup is over and the call is not. -/
def StoreOp.pastLookup (op : StoreOp) : Bool :=
  match op.phase with
  | .creating _ | .looking _ | .finished _ => false
  | _ => true

/-- **Only questions hold objects, and only where sessions are not switched off.** -/
structure OpsInOrder (cfg : StoreSettings) (s : StoreState) : Prop where
  /-- Only a question holds an object. -/
  asks : ∀ op ∈ s.ops, op.isAsk = false → op.holds = none
  /-- No lookup gets anywhere with sessions switched off. -/
  enabled : ∀ op ∈ s.ops, op.pastLookup = true → 0 < cfg.ttl
  /-- So no turn is stored. -/
  turns : ∀ row ∈ s.db.turns, 0 < cfg.ttl

theorem OpsInOrder.setPhase {p : RequestPhase} (h : OpsInOrder cfg s)
    (hasks : op.isAsk = false → StoreOp.holds { op with phase := p } = none)
    (henabled : StoreOp.pastLookup { op with phase := p } = true → 0 < cfg.ttl) :
    OpsInOrder cfg (s.setPhase c op p) := by
  refine ⟨fun op' hop' hask => ?_, fun op' hop' hpast => ?_, h.turns⟩
  · rcases mem_setPhase hop' with hold | rfl
    · exact h.asks op' hold hask
    · exact hasks hask
  · rcases mem_setPhase hop' with hold | rfl
    · exact h.enabled op' hold hpast
    · exact henabled hpast

/-- A call that was past its lookup moves on. -/
theorem OpsInOrder.setLater {phase : RequestPhase} (h : OpsInOrder cfg s)
    (hop : s.ops[c]? = some op) (hpast : op.pastLookup = true)
    (hholds : op.holds = none → StoreOp.holds { op with phase := phase } = none) :
    OpsInOrder cfg (s.setPhase c op phase) :=
  h.setPhase (fun hask => hholds (h.asks op (List.mem_of_getElem? hop) hask))
    fun _ => h.enabled op (List.mem_of_getElem? hop) hpast

/-- A call ends. -/
theorem OpsInOrder.setEnded {phase : RequestPhase} (h : OpsInOrder cfg s)
    (hholds : StoreOp.holds { op with phase := phase } = none)
    (hpast : StoreOp.pastLookup { op with phase := phase } = false) :
    OpsInOrder cfg (s.setPhase c op phase) :=
  h.setPhase (fun _ => hholds) fun htrue => absurd (hpast.symm.trans htrue) Bool.false_ne_true

theorem OpsInOrder.congr (h : OpsInOrder cfg s) (hops : s'.ops = s.ops)
    (hturns : ∀ row ∈ s'.db.turns, row ∈ s.db.turns) : OpsInOrder cfg s' :=
  ⟨by rw [hops]; exact h.asks, by rw [hops]; exact h.enabled,
    fun row hrow => h.turns row (hturns row hrow)⟩

theorem OpsInOrder.newOp (h : OpsInOrder cfg s) (hpast : op.pastLookup = false)
    (hholds : op.holds = none) : OpsInOrder cfg { s with ops := s.ops ++ [op] } := by
  refine ⟨fun op' hop' hask => ?_, fun op' hop' hpast' => ?_, h.turns⟩
  · rcases List.mem_append.mp hop' with hold | hlast
    · exact h.asks op' hold hask
    · rw [List.mem_singleton.mp hlast]
      exact hholds
  · rcases List.mem_append.mp hop' with hold | hlast
    · exact h.enabled op' hold hpast'
    · rw [List.mem_singleton.mp hlast, hpast] at hpast'
      cases hpast'

/-- Only a question holds the object it has found. -/
theorem StoreOp.holds_found {obj : Nat} (hask : op.isAsk = false) :
    StoreOp.holds { op with phase := .found obj } = none := by
  simp only [StoreOp.isAsk] at hask
  simp only [StoreOp.holds]
  split
  · rename_i hkind
    rw [hkind] at hask
    cases hask
  · rfl

theorem StoreOp.pastLookup_eq {phase : RequestPhase} (hphase : op.phase = phase) :
    op.pastLookup = StoreOp.pastLookup { op with phase := phase } := by
  rw [← hphase]

theorem opsInOrder_move {l : StoreLabel} (h : OpsInOrder cfg s) (hmove : StoreMove cfg s l s') :
    OpsInOrder cfg s' := by
  cases hmove with
  | tick d => exact h.congr rfl fun _ hrow => hrow
  | create hfresh => exact OpsInOrder.newOp (h.congr rfl fun _ hrow => hrow) rfl rfl
  | commitCreate hop hphase hobj =>
    exact OpsInOrder.congr (s := s.setPhase _ _ (.finished .created)) (h.setEnded rfl rfl) rfl
      fun row hrow => upsertSession_turns ▸ hrow
  | begin hkind hcreating => exact h.newOp rfl rfl
  | disabled hop hphase httl => exact h.setEnded rfl rfl
  | hit hop hphase httl hhot hobj =>
    exact OpsInOrder.setPhase (h.congr rfl fun _ hrow => hrow) StoreOp.holds_found fun _ => httl
  | miss hop hphase httl hhot =>
    exact OpsInOrder.setPhase (h.congr rfl fun _ hrow => hrow) (fun _ => rfl) fun _ => httl
  | rowMissing hop hphase hrow =>
    exact h.setLater hop (StoreOp.pastLookup_eq hphase) fun _ => rfl
  | rowLoaded hop hphase hrow =>
    exact h.setLater hop (StoreOp.pastLookup_eq hphase) fun _ => rfl
  | turnsLoaded hop hphase =>
    exact h.setLater hop (StoreOp.pastLookup_eq hphase) fun _ => rfl
  | install hop hphase =>
    exact OpsInOrder.setPhase (h.congr rfl fun _ hrow => hrow) StoreOp.holds_found fun _ =>
      h.enabled _ (List.mem_of_getElem? hop) (StoreOp.pastLookup_eq hphase)
  | startAsk hop hkind hphase hobj howns =>
    refine h.setLater hop (StoreOp.pastLookup_eq hphase) fun hholds => ?_
    rw [StoreOp.holds, hphase, hkind] at hholds
    cases hholds
  | giveUp hop hphase houtcome hlabel => exact h.setEnded rfl rfl
  | append hop hphase hobj hfresh hindex =>
    refine OpsInOrder.setLater (show OpsInOrder cfg (s.setObj _ _) from h.congr rfl fun _ hrow => hrow) hop
      (StoreOp.pastLookup_eq hphase) fun hholds => ?_
    rw [StoreOp.holds, hphase] at hholds
    cases hholds
  | upsertSession hop hphase hobj =>
    refine OpsInOrder.congr (s := s.setPhase _ _ _) (h.setLater hop (StoreOp.pastLookup_eq hphase)
      fun hholds => ?_) rfl fun row hrow => upsertSession_turns ▸ hrow
    rw [StoreOp.holds, hphase] at hholds
    cases hholds
  | @saveTurn c obj op turn r hop hphase hobj =>
    have hmoved : OpsInOrder cfg (s.setPhase c op (.finished .synced)) :=
      h.setLater hop (StoreOp.pastLookup_eq hphase) fun _ => rfl
    exact ⟨hmoved.asks, hmoved.enabled, fun row hrow =>
      h.enabled op (List.mem_of_getElem? hop) (StoreOp.pastLookup_eq hphase)⟩
  | removeHot hop hphase hobj howns =>
    exact (h.setLater hop (StoreOp.pastLookup_eq hphase) fun _ => rfl).congr rfl fun _ hrow => hrow
  | deleteRows hop hphase =>
    exact (h.setLater hop (StoreOp.pastLookup_eq hphase) fun _ => rfl).congr rfl
      fun row hrow => (List.mem_filter.mp hrow).1

/-- With every question synced no call holds an object. -/
theorem OpsInOrder.holds_eq_none (h : OpsInOrder cfg s) (hsynced : AsksSynced s) (hop : op ∈ s.ops) :
    op.holds = none := by
  cases hask : op.isAsk with
  | false => exact h.asks op hop hask
  | true =>
    have hfinished := hsynced op hop hask
    rw [StoreOp.isFinished] at hfinished
    split at hfinished
    · rename_i hphase
      rw [StoreOp.holds, hphase]
    · cases hfinished

/-! ## Runs -/

/-- The conditions of both parts on a step. -/
def TurnsSafe (cfg : StoreSettings) (s : StoreState) (l : StoreLabel) : Prop :=
  DeletesAlone cfg s l ∧ KeepsOneObject s l

instance (l : StoreLabel) : Decidable (TurnsSafe cfg s l) := by
  unfold TurnsSafe
  infer_instance

theorem opsInOrder_init : OpsInOrder cfg .init where
  asks op hop := by cases hop
  enabled op hop := by cases hop
  turns row hrow := by cases hrow

theorem askersApart_init : AskersApart .init where
  next op hop := by cases hop
  apart c c' op op' hop := by
    rw [StoreState.init, List.getElem?_nil] at hop
    cases hop

theorem sessionAgrees_init (sid : String) : SessionAgrees .init sid ⟨[], 0⟩ where
  numbered := .nil
  stored row hrow := by cases hrow
  keys := List.nodup_nil
  covered t ht := by cases ht
  hot e he := by cases he
  ops op hop := by cases hop

/-- What holds of every state such a run reaches. -/
structure StoreInv (cfg : StoreSettings) (s : StoreState) : Prop where
  /-- The objects. -/
  typed : StoreTyped s
  /-- The calls. -/
  order : OpsInOrder cfg s
  /-- The questions. -/
  askers : AskersApart s
  /-- The rows. -/
  deletion : DeletionInv s
  /-- The logs. -/
  agrees : ∀ sid, ∃ v, SessionAgrees s sid v

theorem storeInv_of_runWhere {labels : List StoreLabel}
    (h : RunWhere (storeStep cfg) (TurnsSafe cfg) .init labels s) : StoreInv cfg s := by
  refine h.invariant ⟨storeTyped_init, opsInOrder_init, askersApart_init, deletionInv_init,
    fun sid => ⟨_, sessionAgrees_init sid⟩⟩ ?_
  intro s l s' hI hsafe hstep
  have hmove := storeMove_of_step hstep
  exact ⟨storeTyped_move hI.typed hmove, opsInOrder_move hI.order hmove,
    askersApart_move hI.typed hI.askers hsafe.2 hmove,
    deletionInv_move hI.typed hI.deletion hsafe.1 hmove,
    sessionAgrees_move hI.typed hI.agrees hsafe.1 (installsStored_of_keepsOneObject hsafe.2)
      (hI.askers.appendsNext l) hmove⟩

/-- **No turn is lost** in every run whose steps meet the conditions, once every question is
synced. -/
theorem turnsKept_of_runWhere {labels : List StoreLabel}
    (h : RunWhere (storeStep cfg) (TurnsSafe cfg) .init labels s) (hsynced : AsksSynced s) :
    TurnsKept cfg s := by
  have hinv := storeInv_of_runWhere h
  intro sid now
  obtain ⟨v, hv⟩ := hinv.agrees sid
  have hlog : s.db.loadTurns sid = v.log := hv.loadTurns_eq fun op hop _ =>
    StoreOp.pendingTurn_of_holds (hinv.order.holds_eq_none hsynced hop)
  rw [StoreState.get]
  by_cases httl : cfg.ttl ≤ 0
  · rw [if_pos httl]
    refine loadTurns_eq_nil_iff.mpr ?_
    rintro ⟨row, hrow, -⟩
    exact absurd (hinv.order.turns row hrow) (not_lt.mpr httl)
  · rw [if_neg httl]
    obtain ⟨⟨s', found⟩, hlook⟩ : ∃ p, s.lookHot cfg.ttl sid now = p := ⟨_, rfl⟩
    obtain ⟨obj, r, rfl, hhot, hobj, rfl⟩ | ⟨rfl, hot', -, rfl⟩ := lookHot_cases hlook
    -- a live session: the touched object shows the log
    · obtain ⟨-, x, hx, -, hturns⟩ := hv.hot _ hhot rfl
      rw [hobj, Option.some.injEq] at hx
      subst hx
      rw [hlook]
      refine ⟨{ r with lastActive := now },
        List.getElem?_set_self (List.getElem?_eq_some_iff.mp hobj).1, ?_, ?_⟩
      · rw [hlog]
        exact hturns
      · exact numbered_of_map hv.numbered hturns
    -- a rebuilt one: its turns are the stored ones
    · rw [hlook]
      cases hrow : s.db.loadSessionRow sid with
      | none =>
        simp only [hrow]
        refine loadTurns_eq_nil_iff.mpr ?_
        rintro ⟨row, hmem, hsid⟩
        exact loadSessionRow_eq_none_iff.mp hrow (hsid ▸ hinv.deletion.turns row hmem)
      | some row =>
        simp only [hrow]
        refine ⟨_, List.getElem?_concat_length, ?_, ?_⟩
        · show (s.db.loadTurns sid).map Turn.reloaded = s.db.loadTurns sid
          rw [SessionTables.loadTurns, List.map_map]
          exact List.map_congr_left fun row _ => Turn.reloaded_reloaded row.turn
        · show Numbered (s.db.loadTurns sid)
          rw [hlog]
          exact hv.numbered

end Log

/-! ## A lost turn -/

/-- One session at once. -/
def oneSession : StoreSettings := ⟨1800, 1, 60⟩

/-- A question on a session waits for the model; its owner opens another session, which evicts the
first; the first is looked up again and rebuilt; the question is answered and synced. -/
def evictDuringAsk : List StoreLabel :=
  [.create "s1" (some "ann"), .commitCreate 0,
   .begin (.ask "total sales") "s1" (some "ann"), .look 1, .startAsk 1,
   .create "s2" (some "ann"), .commitCreate 2,
   .begin .read "s1" (some "ann"), .look 3, .loadRow 3, .loadTurns 3, .install 3,
   .append 1 "t1" emptyOutcome, .upsertSession 1, .saveTurn 1]

/-- **The turn is stored and missing from the session `get` returns.** -/
theorem evictDuringAsk_not_turnsKept :
    ∃ s, run (storeStep oneSession) .init evictDuringAsk = some s ∧ AsksSynced s ∧
      (s.db.loadTurns "s1").map (·.turnId) = ["t1"] ∧
      (∃ s' r, s.get oneSession "s1" 0 = (s', some 2) ∧ s'.heap[2]? = some r ∧ r.turns = []) ∧
      ¬ TurnsKept oneSession s := by
  refine ⟨_, rfl, by decide, by decide, ⟨_, _, rfl, rfl, rfl⟩, fun h => ?_⟩
  obtain ⟨r, hr, hturns, -⟩ := h "s1" 0
  cases hr
  exact absurd hturns (by decide)

/-- The same calls, the first session looked up again once the question is synced. -/
def evictAfterAsk : List StoreLabel :=
  [.create "s1" (some "ann"), .commitCreate 0,
   .begin (.ask "total sales") "s1" (some "ann"), .look 1, .startAsk 1,
   .create "s2" (some "ann"), .commitCreate 2,
   .append 1 "t1" emptyOutcome, .upsertSession 1, .saveTurn 1,
   .begin .read "s1" (some "ann"), .look 3, .loadRow 3, .loadTurns 3, .install 3]

theorem evictAfterAsk_turnsKept :
    ∃ s, RunWhere (storeStep oneSession) (TurnsSafe oneSession) .init evictAfterAsk s ∧
      (s.db.loadTurns "s1").map (·.turnId) = ["t1"] ∧ TurnsKept oneSession s :=
  have hrun : RunWhere (storeStep oneSession) (TurnsSafe oneSession) .init evictAfterAsk _ :=
    runWhere_sound rfl
  ⟨_, hrun, by decide, turnsKept_of_runWhere hrun (by decide)⟩

end LocalSqlAgent
