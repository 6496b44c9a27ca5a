import LocalSqlAgent.Session.NoLostTurn

/-! # The transcript's cap

`session_max_turns` bounds the transcript of a session, and its memory and its stored turns are to follow
it. `SessionStore.add_turn` appends under the cap and drops the oldest turns; `ask` appends to the record
itself, and a rehydration installs every stored turn.

* **`TranscriptsWithin`**: the transcripts are within the cap, their memory is of turns they hold, and
  their turns are stored or still to be synced.
* **`ask_eq_addTurn_iff`**: when what `ask` does is what `add_turn` does.
* **`transcriptsWithin_iff`**: the runs that stay within the cap, retention purges among their steps. -/

namespace LocalSqlAgent

/-! ## `add_turn` -/

/-- The loop of `add_turn`: while there are too many turns, the oldest goes, and its memory. -/
def dropOldest (maxTurns : Nat) : List Turn → List (String × TurnMemory) → List Turn × List (String × TurnMemory)
  | [], memory => ([], memory)
  | t :: rest, memory =>
    if maxTurns < (t :: rest).length then dropOldest maxTurns rest (memory.filter fun e => e.1 ≠ t.turnId)
    else (t :: rest, memory)

namespace SessionRecord

/-- What `ask` does to the record: both lines of `add_turn` before its loop. -/
def appendTurn (r : SessionRecord) (turn : Turn) (memory : TurnMemory) : SessionRecord :=
  { r with turns := r.turns ++ [turn], memory := r.memory ++ [(turn.turnId, memory)] }

/-- **`add_turn`**, for a turn the record does not have. -/
def addTurn (maxTurns : Nat) (r : SessionRecord) (turn : Turn) (memory : TurnMemory) : SessionRecord :=
  let kept := dropOldest maxTurns (r.appendTurn turn memory).turns (r.appendTurn turn memory).memory
  { r with turns := kept.1, memory := kept.2 }

end SessionRecord

section AddTurn

variable {maxTurns : Nat} {turns : List Turn} {memory : List (String × TurnMemory)}

theorem dropOldest_of_le (h : turns.length ≤ maxTurns) : dropOldest maxTurns turns memory = (turns, memory) := by
  cases turns with
  | nil => rfl
  | cons t rest => rw [dropOldest, if_neg (Nat.not_lt.mpr h)]

/-- **The newest turns stay**, as many as the cap admits. -/
theorem dropOldest_turns : (dropOldest maxTurns turns memory).1 = turns.drop (turns.length - maxTurns) := by
  induction turns generalizing memory with
  | nil => simp [dropOldest]
  | cons t rest ih =>
    rw [dropOldest]
    split
    · rename_i hmore
      have hdrop : (t :: rest).length - maxTurns = rest.length - maxTurns + 1 := by
        rw [List.length_cons] at hmore ⊢
        omega
      rw [ih, hdrop, List.drop_succ_cons]
    · rename_i hfits
      have hdrop : (t :: rest).length - maxTurns = 0 := by omega
      rw [hdrop, List.drop_zero]

/-- A memory of a turn that goes goes with it. -/
theorem dropOldest_memory (h : ∀ e ∈ memory, ∃ t ∈ turns, t.turnId = e.1) :
    ∀ e ∈ (dropOldest maxTurns turns memory).2, ∃ t ∈ (dropOldest maxTurns turns memory).1, t.turnId = e.1 := by
  induction turns generalizing memory with
  | nil => exact h
  | cons t rest ih =>
    rw [dropOldest]
    split
    · -- what is left of the memory is of the turns left
      refine ih fun e he => ?_
      obtain ⟨hmem, hne⟩ := List.mem_filter.mp he
      obtain ⟨t', ht', hid⟩ := h e hmem
      rcases List.mem_cons.mp ht' with rfl | hrest
      · exact absurd hid.symm (by simpa using hne)
      · exact ⟨t', hrest, hid⟩
    · exact h

/-- **`add_turn` keeps the cap.** -/
theorem addTurn_length_le (r : SessionRecord) (turn : Turn) (m : TurnMemory) :
    (r.addTurn maxTurns turn m).turns.length ≤ maxTurns := by
  show (dropOldest maxTurns _ _).1.length ≤ maxTurns
  rw [dropOldest_turns, List.length_drop]
  omega

/-- **And it keeps the memory to turns of the transcript.** -/
theorem addTurn_memory {r : SessionRecord} {turn : Turn} {m : TurnMemory}
    (h : ∀ e ∈ r.memory, ∃ t ∈ r.turns, t.turnId = e.1) :
    ∀ e ∈ (r.addTurn maxTurns turn m).memory, ∃ t ∈ (r.addTurn maxTurns turn m).turns, t.turnId = e.1 := by
  refine dropOldest_memory fun e he => ?_
  rcases List.mem_append.mp he with hold | hnew
  · obtain ⟨t, ht, hid⟩ := h e hold
    exact ⟨t, List.mem_append_left _ ht, hid⟩
  · rw [List.mem_singleton.mp hnew]
    exact ⟨turn, List.mem_append_right _ (List.mem_singleton_self _), rfl⟩

/-- **`ask` does what `add_turn` does** exactly while the transcript is shorter than the cap. -/
theorem ask_eq_addTurn_iff (r : SessionRecord) (turn : Turn) (m : TurnMemory) :
    r.appendTurn turn m = r.addTurn maxTurns turn m ↔ r.turns.length < maxTurns := by
  have hlen : (r.appendTurn turn m).turns.length = r.turns.length + 1 := by
    rw [SessionRecord.appendTurn, List.length_append, List.length_singleton]
  constructor
  · intro h
    have hle : (r.addTurn maxTurns turn m).turns.length ≤ maxTurns := addTurn_length_le r turn m
    rw [← h, hlen] at hle
    omega
  · intro h
    unfold SessionRecord.addTurn
    rw [dropOldest_of_le (by omega)]
    rfl

end AddTurn

/-! ## Purges -/

namespace SessionTables

variable (db : SessionTables) (stale : List String)

/-- The sessions `purge_sessions_older_than` selects, of those last active before its cutoff. -/
def purged : List String := (db.sessions.filter fun r => r.sessionId ∈ stale).map (·.sessionId)

/-- **`purge_sessions_older_than`**, one transaction. -/
def purgeSessions : SessionTables where
  sessions := db.sessions.filter fun r => r.sessionId ∉ db.purged stale
  turns := db.turns.filter fun r => r.sessionId ∉ db.purged stale

end SessionTables

/-- The steps of the store, and a purge. -/
inductive SessionLabel where
  | call (l : StoreLabel)
  | purge (stale : List String)
  deriving DecidableEq

/-- **One step.** -/
def sessionStep (cfg : StoreSettings) (s : StoreState) : SessionLabel → Option StoreState
  | .call l => storeStep cfg s l
  | .purge stale => some { s with db := s.db.purgeSessions stale }

/-! ## The property -/

namespace StoreState

variable (s : StoreState) (sid : String)

/-- The record is the session's live object. -/
def Live (r : SessionRecord) : Prop := ∃ obj, (sid, obj) ∈ s.hot ∧ s.heap[obj]? = some r

/-- The session has the turn stored. -/
def Stored (turnId : String) : Prop := ∃ row ∈ s.db.turns, row.sessionId = sid ∧ row.turn.turnId = turnId

/-- A question on the session has appended the turn and is still to sync it. -/
def Unsynced (turnId : String) : Prop :=
  ∃ op ∈ s.ops, op.sessionId = sid ∧ ∃ t, op.pendingTurn = some t ∧ t.turnId = turnId

/-- The turn is stored, or about to be. -/
def Backed (turnId : String) : Prop := s.Stored sid turnId ∨ s.Unsynced sid turnId

end StoreState

/-- A session's record, its memory and its stored turns. -/
structure SessionWithin (maxTurns : Nat) (s : StoreState) (sid : String) (r : SessionRecord) : Prop where
  /-- The cap. -/
  cap : r.turns.length ≤ maxTurns
  /-- The memory is of turns the session holds. -/
  memory : ∀ e ∈ r.memory, ∃ t ∈ r.turns, t.turnId = e.1
  /-- The turns are stored, or about to be. -/
  stored : ∀ t ∈ r.turns, s.Backed sid t.turnId

/-- **Every live session is within the cap.** -/
def TranscriptsWithin (maxTurns : Nat) (s : StoreState) : Prop :=
  ∀ sid r, s.Live sid r → SessionWithin maxTurns s sid r

/-- A step keeps every session within the cap. -/
def KeepsTranscripts (cfg : StoreSettings) (maxTurns : Nat) (s : StoreState) (l : SessionLabel) : Prop :=
  ∀ s', sessionStep cfg s l = some s' → TranscriptsWithin maxTurns s'

/-- The session's live object holds turns still to be synced only. -/
def NoneStored (s : StoreState) (sid : String) : Prop :=
  ∀ r, s.Live sid r → ∀ t ∈ r.turns, s.Unsynced sid t.turnId

/-- **The condition on a step**: a question appends to a live transcript only while that is shorter than the
cap; a rehydration installs no more turns than the cap, all of them stored; and no rows go from under a live
transcript. -/
def StaysWithin (maxTurns : Nat) (s : StoreState) : SessionLabel → Prop
  | .call (.append c _ _) => ∀ op ∈ s.ops[c]?, ∀ a ∈ op.asksAt, (op.sessionId, a.1) ∈ s.hot →
      ∀ r ∈ s.heap[a.1]?, r.turns.length < maxTurns
  | .call (.install c) => ∀ op ∈ s.ops[c]?, ∀ turns ∈ op.loadedTurns, turns.length ≤ maxTurns ∧
      ∀ t ∈ turns, s.Backed op.sessionId t.turnId
  | .call (.deleteRows c) => ∀ op ∈ s.ops[c]?, NoneStored s op.sessionId
  | .purge stale => ∀ sid ∈ s.db.purged stale, NoneStored s sid
  | _ => True

/-! ## What a step leaves alone -/

section Steps

variable {cfg : StoreSettings} {maxTurns : Nat} {s s' : StoreState} {c : Nat} {op : StoreOp} {sid : String}

theorem SessionWithin.congr {r r' : SessionRecord} (h : SessionWithin maxTurns s sid r)
    (hturns : r'.turns = r.turns) (hmemory : r'.memory = r.memory)
    (hbacked : ∀ id, s.Backed sid id → s'.Backed sid id) : SessionWithin maxTurns s' sid r' := by
  refine ⟨?_, ?_, fun t ht => ?_⟩
  · rw [hturns]
    exact h.cap
  · rw [hturns, hmemory]
    exact h.memory
  · rw [hturns] at ht
    exact hbacked _ (h.stored t ht)

/-- **The frame**: live transcripts are ones there were, and nothing stored or pending is lost. -/
theorem TranscriptsWithin.frame (h : TranscriptsWithin maxTurns s)
    (hlive : ∀ sid r', s'.Live sid r' → ∃ r, s.Live sid r ∧ r'.turns = r.turns ∧ r'.memory = r.memory)
    (hbacked : ∀ sid id, s.Backed sid id → s'.Backed sid id) : TranscriptsWithin maxTurns s' := by
  intro sid r' hr'
  obtain ⟨r, hr, hturns, hmemory⟩ := hlive sid r' hr'
  exact (h sid r hr).congr hturns hmemory (hbacked sid)

/-- Forgetting live sessions. -/
theorem live_of_subset {r : SessionRecord} (h : s'.Live sid r) (hheap : s'.heap = s.heap)
    (hhot : ∀ e ∈ s'.hot, e ∈ s.hot) : s.Live sid r := by
  obtain ⟨obj, hobj, hget⟩ := h
  exact ⟨obj, hhot _ hobj, hheap ▸ hget⟩

/-- Changing an object but for its transcript. -/
theorem live_of_set {obj : Nat} {r y x : SessionRecord} (h : s'.Live sid x) (hobj : s.heap[obj]? = some r)
    (hheap : s'.heap = s.heap.set obj y) (hhot : ∀ e ∈ s'.hot, e ∈ s.hot) (hturns : y.turns = r.turns)
    (hmemory : y.memory = r.memory) : ∃ r', s.Live sid r' ∧ x.turns = r'.turns ∧ x.memory = r'.memory := by
  obtain ⟨obj', hobj', hget⟩ := h
  rw [hheap] at hget
  by_cases heq : obj' = obj
  · subst heq
    rw [List.getElem?_set_self (List.getElem?_eq_some_iff.mp hobj).1, Option.some.injEq] at hget
    subst hget
    exact ⟨r, ⟨obj', hhot _ hobj', hobj⟩, hturns, hmemory⟩
  · rw [List.getElem?_set_ne (Ne.symm heq)] at hget
    exact ⟨x, ⟨obj', hhot _ hobj', hget⟩, rfl, rfl⟩

/-- A registration adds its record at most. -/
theorem live_register {n : Nat} {r x : SessionRecord} (htyped : StoreTyped s)
    (h : (s.register n r).Live sid x) : (sid = r.sessionId ∧ x = r) ∨ s.Live sid x := by
  obtain ⟨obj, hobj, hget⟩ := h
  rcases mem_hotSet hobj with heq | ⟨hold, -⟩
  · cases heq
    refine .inl ⟨rfl, ?_⟩
    rw [StoreState.register, List.getElem?_concat_length, Option.some.injEq] at hget
    exact hget.symm
  · have hmem := (makeRoomFor_sublist s.hot).subset hold
    obtain ⟨y, hy, -⟩ := htyped.hot _ hmem
    have hx : (s.heap ++ [r])[obj]? = some x := hget
    rw [getElem?_heap_append hy, Option.some.injEq] at hx
    exact .inr ⟨obj, hmem, by rw [← hx]; exact hy⟩

/-- A call that moves on keeps what it has pending, or it is stored. -/
theorem backed_setPhase {p : RequestPhase} {id : String} (h : s.Backed sid id) (hop : s.ops[c]? = some op)
    (hpending : ∀ u, op.pendingTurn = some u →
      StoreOp.pendingTurn { op with phase := p } = some u ∨ s.Stored op.sessionId u.turnId) :
    (s.setPhase c op p).Backed sid id := by
  rcases h with hstored | ⟨op', hop', rfl, u, hu, rfl⟩
  · exact .inl hstored
  · by_cases hsame : s.ops[c]? = some op'
    · obtain rfl : op = op' := Option.some.inj (hop.symm.trans hsame)
      rcases hpending u hu with hkept | hstored
      · exact .inr ⟨_, mem_setPhase_self hop, rfl, u, hkept, rfl⟩
      · exact .inl hstored
    · exact .inr ⟨op', mem_setPhase_of_ne hop' hsame, rfl, u, hu, rfl⟩

/-- A call with nothing pending moves on. -/
theorem backed_setIdle {p : RequestPhase} {id : String} (h : s.Backed sid id) (hop : s.ops[c]? = some op)
    (hidle : op.pendingTurn = none) : (s.setPhase c op p).Backed sid id := by
  refine backed_setPhase h hop fun u hu => ?_
  rw [hidle] at hu
  cases hu

theorem StoreState.Backed.newOp {id : String} (h : s.Backed sid id) : StoreState.Backed { s with ops := s.ops ++ [op] } sid id := by
  rcases h with hstored | ⟨op', hop', hrest⟩
  · exact .inl hstored
  · exact .inr ⟨op', List.mem_append_left _ hop', hrest⟩

/-- Only what is stored has changed, and no turn is missing. -/
theorem backed_of_turns {id : String} (h : s.Backed sid id) (hops : s'.ops = s.ops)
    (hturns : ∀ row ∈ s.db.turns, ∃ row' ∈ s'.db.turns,
      row'.sessionId = row.sessionId ∧ row'.turn.turnId = row.turn.turnId) : s'.Backed sid id := by
  rcases h with ⟨row, hrow, rfl, rfl⟩ | ⟨op', hop', hrest⟩
  · exact .inl (hturns row hrow)
  · exact .inr ⟨op', hops ▸ hop', hrest⟩

/-! ## Rows go -/

/-- **Deleting rows** keeps the live sessions within the cap exactly when none of them holds a turn that was
stored. -/
theorem within_deleted_iff {gone : String → Prop} (h : TranscriptsWithin maxTurns s)
    (hlive : ∀ sid r, s'.Live sid r ↔ s.Live sid r)
    (hstored : ∀ sid id, s'.Stored sid id ↔ s.Stored sid id ∧ ¬ gone sid)
    (hunsynced : ∀ sid id, s'.Unsynced sid id ↔ s.Unsynced sid id) :
    TranscriptsWithin maxTurns s' ↔ ∀ sid, gone sid → NoneStored s sid := by
  constructor
  · intro hall sid hgone r hr t ht
    rcases (hall sid r ((hlive sid r).mpr hr)).stored t ht with hs | hu
    · exact absurd hgone ((hstored _ _).mp hs).2
    · exact (hunsynced _ _).mp hu
  · intro hnone sid r hr
    rw [hlive] at hr
    have hwithin := h sid r hr
    refine ⟨hwithin.cap, hwithin.memory, fun t ht => ?_⟩
    by_cases hgone : gone sid
    · -- nothing the session holds was stored
      exact .inr ((hunsynced _ _).mpr (hnone sid hgone r hr t ht))
    · exact (hwithin.stored t ht).imp (fun hs => (hstored _ _).mpr ⟨hs, hgone⟩) (hunsynced _ _).mpr

/-- What is stored once some sessions' rows are gone. -/
theorem stored_filter (gone : String → Bool) {id : String}
    (hturns : s'.db.turns = s.db.turns.filter fun row => !gone row.sessionId) :
    s'.Stored sid id ↔ s.Stored sid id ∧ ¬ gone sid = true := by
  unfold StoreState.Stored
  rw [hturns]
  constructor
  · rintro ⟨row, hrow, rfl, hid⟩
    obtain ⟨hmem, hkept⟩ := List.mem_filter.mp hrow
    exact ⟨⟨row, hmem, rfl, hid⟩, by simpa using hkept⟩
  · rintro ⟨⟨row, hmem, rfl, hid⟩, hkept⟩
    exact ⟨row, List.mem_filter.mpr ⟨hmem, by simpa using hkept⟩, rfl, hid⟩

/-- A call with nothing pending, before and after. -/
theorem unsynced_setPhase_iff {p : RequestPhase} {id : String} (hop : s.ops[c]? = some op)
    (hold : op.pendingTurn = none) (hnew : StoreOp.pendingTurn { op with phase := p } = none) :
    (s.setPhase c op p).Unsynced sid id ↔ s.Unsynced sid id := by
  refine Pool.exists_mem_set_iff hop (iff_of_false ?_ ?_)
  · rintro ⟨-, u, hu, -⟩
    rw [hnew] at hu
    cases hu
  · rintro ⟨-, u, hu, -⟩
    rw [hold] at hu
    cases hu

/-- **A purge.** -/
theorem within_purge_iff (stale : List String) (h : TranscriptsWithin maxTurns s) :
    KeepsTranscripts cfg maxTurns s (.purge stale) ↔ StaysWithin maxTurns s (.purge stale) := by
  have hpurged : TranscriptsWithin maxTurns { s with db := s.db.purgeSessions stale } ↔
      ∀ sid, decide (sid ∈ s.db.purged stale) = true → NoneStored s sid := by
    refine within_deleted_iff h (fun _ _ => Iff.rfl) (fun sid id =>
      stored_filter (fun sid => decide (sid ∈ s.db.purged stale)) ?_) fun _ _ => Iff.rfl
    exact List.filter_congr fun row _ => decide_not
  have hstep : KeepsTranscripts cfg maxTurns s (.purge stale) ↔
      TranscriptsWithin maxTurns { s with db := s.db.purgeSessions stale } := by
    unfold KeepsTranscripts
    exact ⟨fun hall => hall _ rfl, fun hwithin s' hs' => Option.some.inj hs' ▸ hwithin⟩
  rw [hstep, hpurged]
  exact forall_congr' fun sid => imp_congr_left decide_eq_true_iff

/-! ## Turns come -/

/-- **An append** to an object that is live, or is not. -/
theorem within_append_iff {obj index : Nat} {r : SessionRecord} {turn : Turn} {m : TurnMemory}
    (h : TranscriptsWithin maxTurns s) (htyped : StoreTyped s) (hop : s.ops[c]? = some op)
    (hphase : op.phase = .asking obj index) (hobj : s.heap[obj]? = some r) :
    TranscriptsWithin maxTurns ((s.setObj obj (r.appendTurn turn m)).setPhase c op (.appended obj turn)) ↔
      ((op.sessionId, obj) ∈ s.hot → r.turns.length < maxTurns) := by
  have hget : (s.heap.set obj (r.appendTurn turn m))[obj]? = some (r.appendTurn turn m) :=
    List.getElem?_set_self (List.getElem?_eq_some_iff.mp hobj).1
  have hidle : op.pendingTurn = none := StoreOp.pendingTurn_eq hphase
  have hlen : (r.appendTurn turn m).turns.length = r.turns.length + 1 := by
    rw [SessionRecord.appendTurn, List.length_append, List.length_singleton]
  have hbacked : ∀ sid id, s.Backed sid id →
      StoreState.Backed ((s.setObj obj (r.appendTurn turn m)).setPhase c op (.appended obj turn)) sid id :=
    fun sid id hid => backed_setIdle (s := s.setObj obj (r.appendTurn turn m)) hid hop hidle
  constructor
  · intro hall hlive
    have hcap := (hall op.sessionId _ ⟨obj, hlive, hget⟩).cap
    omega
  · rintro hcap sid x ⟨obj', hlive, hx⟩
    change (s.heap.set obj (r.appendTurn turn m))[obj']? = some x at hx
    by_cases heq : obj' = obj
    · -- the object appended to, live for its own session only
      subst heq
      obtain rfl : r.appendTurn turn m = x := Option.some.inj (hget.symm.trans hx)
      obtain ⟨r', hr', hsid⟩ := htyped.hot _ hlive
      obtain rfl : r = r' := Option.some.inj (hobj.symm.trans hr')
      have hsame : op.sessionId = sid :=
        (htyped.sessionId_eq hop (by rw [hphase]; rfl) hobj).symm.trans hsid
      subst hsame
      have hwithin := h _ r ⟨obj', hlive, hobj⟩
      refine ⟨?_, fun e he => ?_, fun t ht => ?_⟩
      · have hlt := hcap hlive
        omega
      · rcases List.mem_append.mp he with hold | hnew
        · obtain ⟨t, ht, hid⟩ := hwithin.memory e hold
          exact ⟨t, List.mem_append_left _ ht, hid⟩
        · rw [List.mem_singleton.mp hnew]
          exact ⟨turn, List.mem_append_right _ (List.mem_singleton_self _), rfl⟩
      · rcases List.mem_append.mp ht with hold | hnew
        · exact hbacked _ _ (hwithin.stored t hold)
        · -- the new turn is still to be synced
          rw [List.mem_singleton.mp hnew]
          exact .inr ⟨_, mem_setPhase_self hop, rfl, turn, rfl, rfl⟩
    · rw [List.getElem?_set_ne (Ne.symm heq)] at hx
      exact (h sid x ⟨obj', hlive, hx⟩).congr rfl rfl (hbacked sid)

/-- **A rehydration** installs what it has loaded. -/
theorem within_install_iff {n : Nat} {now : Int} {row : SessionRow} {turns : List Turn}
    {memory : List (String × TurnMemory)} (h : TranscriptsWithin maxTurns s) (htyped : StoreTyped s)
    (hop : s.ops[c]? = some op) (hphase : op.phase = .turnsLoaded now row turns memory)
    (hmemory : memory.map (·.1) = turns.map (·.turnId)) :
    TranscriptsWithin maxTurns ((s.register n (StoreState.rebuilt op.sessionId now row turns memory)).setPhase c
        op (.found s.heap.length)) ↔
      turns.length ≤ maxTurns ∧ ∀ t ∈ turns, s.Backed op.sessionId t.turnId := by
  have hidle : op.pendingTurn = none := StoreOp.pendingTurn_eq hphase
  have hbacked : ∀ sid id, s.Backed sid id → StoreState.Backed ((s.register n
      (StoreState.rebuilt op.sessionId now row turns memory)).setPhase c op (.found s.heap.length)) sid id :=
    fun sid id hid => backed_setIdle (s := s.register n _) hid hop hidle
  have hlast : (s.heap ++ [StoreState.rebuilt op.sessionId now row turns memory])[s.heap.length]? =
      some (StoreState.rebuilt op.sessionId now row turns memory) := List.getElem?_concat_length
  constructor
  · intro hall
    have hwithin := hall op.sessionId _ ⟨s.heap.length, mem_hotSet_self, hlast⟩
    refine ⟨hwithin.cap, fun t ht => ?_⟩
    rcases hwithin.stored t ht with hs | hu
    · exact .inl hs
    · exact .inr ((unsynced_setPhase_iff (s := s.register n _) hop hidle rfl).mp hu)
  · rintro ⟨hcap, hstored⟩ sid x hx
    rcases live_register htyped hx with ⟨rfl, rfl⟩ | hold
    · -- the object rebuilt, with the memory loaded for its turns
      refine ⟨hcap, fun e he => ?_, fun t ht => hbacked _ _ (hstored t ht)⟩
      have hid : e.1 ∈ turns.map (·.turnId) := hmemory ▸ List.mem_map_of_mem he
      obtain ⟨t, ht, heq⟩ := List.mem_map.mp hid
      exact ⟨t, ht, heq⟩
    · exact (h sid x hold).congr rfl rfl (hbacked sid)

/-- A turn is saved over its own row at most. -/
theorem exists_row_saveTurn {db : SessionTables} {turn : Turn} {m : Option TurnMemory} {row : TurnRow}
    (hrow : row ∈ db.turns) : ∃ row' ∈ (db.saveTurn sid turn m).turns,
      row'.sessionId = row.sessionId ∧ row'.turn.turnId = row.turn.turnId := by
  by_cases hsame : row.sessionId = sid ∧ row.turn.turnId = turn.turnId
  · -- the row is replaced by one of the same turn
    refine ⟨_, List.mem_append_right _ (List.mem_singleton_self _), ?_⟩
    exact ⟨hsame.1.symm, hsame.2.symm⟩
  · refine ⟨row, List.mem_append_left _ (List.mem_filter.mpr ⟨hrow, ?_⟩), rfl, rfl⟩
    exact decide_eq_true hsame

/-- **A save**: the turn pending is stored. -/
theorem backed_saveTurn {obj : Nat} {r : SessionRecord} {turn : Turn} {id : String} (htyped : StoreTyped s)
    (hop : s.ops[c]? = some op) (hphase : op.phase = .upserted obj turn) (hobj : s.heap[obj]? = some r)
    (h : s.Backed sid id) :
    StoreState.Backed { s.setPhase c op (.finished .synced) with
      db := s.db.saveTurn r.sessionId turn (r.memoryFor turn.turnId) } sid id := by
  have hdb : StoreState.Backed { s with db := s.db.saveTurn r.sessionId turn (r.memoryFor turn.turnId) } sid id :=
    backed_of_turns h rfl fun row hrow => exists_row_saveTurn hrow
  refine backed_setPhase (p := .finished .synced) hdb hop fun u hu => .inr ?_
  obtain rfl : turn = u := by
    rw [StoreOp.pendingTurn, hphase] at hu
    exact Option.some.inj hu
  rw [← htyped.sessionId_eq hop (by rw [hphase]; rfl) hobj]
  exact ⟨_, List.mem_append_right _ (List.mem_singleton_self _), rfl, rfl⟩

/-! ## Memory loaded with its turns -/

/-- The memory a rehydration has loaded is of the turns it has loaded. -/
def LoadedMatches (s : StoreState) : Prop :=
  ∀ op ∈ s.ops, ∀ now row turns memory, op.phase = .turnsLoaded now row turns memory →
    memory.map (·.1) = turns.map (·.turnId)

theorem LoadedMatches.setPhase {p : RequestPhase} (h : LoadedMatches s)
    (hnew : ∀ now row turns memory, p = .turnsLoaded now row turns memory →
      memory.map (·.1) = turns.map (·.turnId)) : LoadedMatches (s.setPhase c op p) := by
  intro op' hop' now row turns memory hphase
  rcases mem_setPhase hop' with hold | rfl
  · exact h op' hold now row turns memory hphase
  · exact hnew now row turns memory hphase

theorem LoadedMatches.newOp (h : LoadedMatches s)
    (hnew : ∀ now row turns memory, op.phase ≠ .turnsLoaded now row turns memory) :
    LoadedMatches { s with ops := s.ops ++ [op] } := by
  intro op' hop' now row turns memory hphase
  rcases List.mem_append.mp hop' with hold | hlast
  · exact h op' hold now row turns memory hphase
  · rw [List.mem_singleton.mp hlast] at hphase
    exact absurd hphase (hnew now row turns memory)

theorem map_loadMemory (db : SessionTables) (sid : String) :
    (db.loadMemory sid).map (·.1) = (db.loadTurns sid).map (·.turnId) := by
  rw [SessionTables.loadMemory, SessionTables.loadTurns, List.map_map, List.map_map]
  rfl

theorem loadedMatches_move {l : StoreLabel} (h : LoadedMatches s) (hmove : StoreMove cfg s l s') :
    LoadedMatches s' := by
  cases hmove with
  | tick d => exact h
  | create hfresh => exact LoadedMatches.newOp (s := s.register _ _) h nofun
  | begin hkind hcreating => exact h.newOp nofun
  | turnsLoaded hop hphase =>
    refine h.setPhase fun now row turns memory heq => ?_
    cases heq
    exact map_loadMemory s.db _
  | hit hop hphase httl hhot hobj => exact LoadedMatches.setPhase (s := { s with heap := _, hot := _ }) h nofun
  | miss hop hphase httl hhot => exact LoadedMatches.setPhase (s := { s with hot := _ }) h nofun
  | install hop hphase => exact LoadedMatches.setPhase (s := s.register _ _) h nofun
  | append hop hphase hobj hfresh hindex => exact LoadedMatches.setPhase (s := s.setObj _ _) h nofun
  | upsertSession hop hphase hobj => exact LoadedMatches.setPhase (s := s.setObj _ _) h nofun
  | commitCreate hop hphase hobj => exact LoadedMatches.setPhase h nofun
  | disabled hop hphase httl => exact h.setPhase nofun
  | rowMissing hop hphase hrow => exact h.setPhase nofun
  | rowLoaded hop hphase hrow => exact h.setPhase nofun
  | startAsk hop hkind hphase hobj howns => exact h.setPhase nofun
  | giveUp hop hphase houtcome hlabel => exact h.setPhase nofun
  | saveTurn hop hphase hobj => exact LoadedMatches.setPhase h nofun
  | removeHot hop hphase hobj howns => exact LoadedMatches.setPhase h nofun
  | deleteRows hop hphase => exact LoadedMatches.setPhase h nofun

/-! ## Steps -/

/-- A step on other phases of a call than a question's with its turn pending. -/
theorem within_setIdle {p : RequestPhase} (h : TranscriptsWithin maxTurns s) (hop : s.ops[c]? = some op)
    (hidle : op.pendingTurn = none) : TranscriptsWithin maxTurns (s.setPhase c op p) :=
  h.frame (fun _ r hr => ⟨r, hr, rfl, rfl⟩) fun _ _ hid => backed_setIdle hid hop hidle

/-- **One step of the store.** -/
theorem within_move_iff {l : StoreLabel} (htyped : StoreTyped s) (hloaded : LoadedMatches s)
    (h : TranscriptsWithin maxTurns s) (hmove : StoreMove cfg s l s') :
    TranscriptsWithin maxTurns s' ↔ StaysWithin maxTurns s (.call l) := by
  cases hmove with
  | tick d => exact iff_of_true (h.frame (fun _ r hr => ⟨r, hr, rfl, rfl⟩) fun _ _ hid => hid) trivial
  | @create sid ownerId hfresh =>
    refine iff_of_true (fun sid' x hx => ?_) trivial
    have hbacked : ∀ id, s.Backed sid' id → StoreState.Backed
        { s.register cfg.maxSize ⟨sid, s.clock, s.clock, [], [], ownerId, none⟩ with
          ops := s.ops ++ [⟨.create, sid, ownerId, .creating s.heap.length⟩] } sid' id :=
      fun id hid => StoreState.Backed.newOp (s := s.register cfg.maxSize _) hid
    rcases live_register (n := cfg.maxSize) (r := ⟨sid, s.clock, s.clock, [], [], ownerId, none⟩) htyped hx with
      ⟨rfl, rfl⟩ | hold
    · -- a new session has no turn
      exact ⟨Nat.zero_le _, nofun, nofun⟩
    · exact (h sid' x hold).congr rfl rfl hbacked
  | @commitCreate c obj op r hop hphase hobj =>
    refine iff_of_true ?_ trivial
    refine (within_setIdle (p := .finished .created) h hop (StoreOp.pendingTurn_eq hphase)).frame
      (fun _ r hr => ⟨r, hr, rfl, rfl⟩) fun _ _ hid => ?_
    exact backed_of_turns hid rfl fun row hrow => ⟨row, by rw [upsertSession_turns]; exact hrow, rfl, rfl⟩
  | begin hkind hcreating =>
    exact iff_of_true (h.frame (fun _ r hr => ⟨r, hr, rfl, rfl⟩) fun _ _ hid => hid.newOp) trivial
  | disabled hop hphase httl =>
    exact iff_of_true (within_setIdle h hop (StoreOp.pendingTurn_eq hphase)) trivial
  | @hit c obj op now r hop hphase httl hhot hobj =>
    have hsame : ∀ e ∈ hotErase op.sessionId s.hot ++ [(op.sessionId, obj)], e ∈ s.hot := by
      intro e he
      rcases List.mem_append.mp he with hold | hnew
      · exact (mem_hotErase.mp hold).1
      · rw [List.mem_singleton.mp hnew]
        exact hhot
    refine iff_of_true (h.frame (fun _ x hx => live_of_set hx hobj rfl hsame rfl rfl) fun _ _ hid => ?_) trivial
    exact backed_setIdle (s := { s with heap := _, hot := _ }) hid hop
      (StoreOp.pendingTurn_eq hphase)
  | @miss c op now hot' hop hphase httl hhot =>
    refine iff_of_true (h.frame (fun _ x hx => ⟨x, live_of_subset hx rfl fun e he => hhot.subset he, rfl, rfl⟩)
      fun _ _ hid => ?_) trivial
    exact backed_setIdle (s := { s with hot := hot' }) hid hop
      (StoreOp.pendingTurn_eq hphase)
  | rowMissing hop hphase hrow =>
    exact iff_of_true (within_setIdle h hop (StoreOp.pendingTurn_eq hphase)) trivial
  | rowLoaded hop hphase hrow =>
    exact iff_of_true (within_setIdle h hop (StoreOp.pendingTurn_eq hphase)) trivial
  | turnsLoaded hop hphase =>
    exact iff_of_true (within_setIdle h hop (StoreOp.pendingTurn_eq hphase)) trivial
  | @install c op now row turns memory hop hphase =>
    rw [within_install_iff h htyped hop hphase (hloaded op (List.mem_of_getElem? hop) now row turns memory hphase)]
    have hturns : op.loadedTurns = some turns := by rw [StoreOp.loadedTurns, hphase]
    constructor
    · rintro hfits op' hop' turns' hturns'
      obtain rfl : op = op' := Option.some.inj (hop.symm.trans hop')
      obtain rfl : turns = turns' := Option.some.inj (hturns.symm.trans hturns')
      exact hfits
    · exact fun hfits => hfits op hop turns hturns
  | startAsk hop hkind hphase hobj howns =>
    exact iff_of_true (within_setIdle h hop (StoreOp.pendingTurn_eq hphase)) trivial
  | @giveUp l c op outcome hop hphase houtcome hlabel =>
    have hidle : op.pendingTurn = none := by
      obtain ⟨obj, hfound | ⟨index, hasking⟩⟩ := hphase
      · rw [StoreOp.pendingTurn, hfound]
      · rw [StoreOp.pendingTurn, hasking]
    rcases hlabel with rfl | rfl | rfl <;> exact iff_of_true (within_setIdle h hop hidle) trivial
  | @append c obj index op turn memory outcome r hop hphase hobj hfresh hindex =>
    have hasks : op.asksAt = some (obj, index) := by rw [StoreOp.asksAt, hphase]
    refine (within_append_iff (m := memory) h htyped hop hphase hobj).trans ?_
    constructor
    · rintro hfits op' hop' a ha hlive r' hr'
      obtain rfl : op = op' := Option.some.inj (hop.symm.trans hop')
      obtain rfl : (obj, index) = a := Option.some.inj (hasks.symm.trans ha)
      obtain rfl : r = r' := Option.some.inj (hobj.symm.trans hr')
      exact hfits hlive
    · exact fun hfits hlive => hfits op hop (obj, index) hasks hlive r hobj
  | @upsertSession c obj op turn r hop hphase hobj =>
    -- the title may change, and the turn stays pending
    refine iff_of_true (h.frame (fun _ x hx => live_of_set hx hobj rfl (fun _ he => he) rfl rfl)
      fun _ _ hid => ?_) trivial
    have hmoved := backed_setPhase (p := .upserted obj turn) hid hop fun u hu => .inl ?_
    · exact backed_of_turns hmoved rfl fun row hrow => ⟨row, by rw [upsertSession_turns]; exact hrow, rfl, rfl⟩
    · rw [← hu, StoreOp.pendingTurn, StoreOp.pendingTurn, hphase]
  | saveTurn hop hphase hobj =>
    exact iff_of_true (h.frame (fun _ x hx => ⟨x, hx, rfl, rfl⟩) fun _ _ hid =>
      backed_saveTurn htyped hop hphase hobj hid) trivial
  | @removeHot c obj op r hop hphase hobj howns =>
    refine iff_of_true (h.frame (fun _ x hx => ⟨x, live_of_subset hx rfl fun e he => (mem_hotErase.mp he).1,
      rfl, rfl⟩) fun _ _ hid => ?_) trivial
    exact backed_setIdle (s := { s with hot := hotErase op.sessionId s.hot }) hid hop
      (StoreOp.pendingTurn_eq hphase)
  | @deleteRows c op hop hphase =>
    have hidle : op.pendingTurn = none := StoreOp.pendingTurn_eq hphase
    have hunsynced : ∀ sid id, (s.setPhase c op (.finished .deleted)).Unsynced sid id ↔ s.Unsynced sid id :=
      fun sid id => unsynced_setPhase_iff hop hidle rfl
    have hdeleted : TranscriptsWithin maxTurns { s.setPhase c op (.finished .deleted) with
          db := s.db.deleteSession op.sessionId } ↔
        ∀ sid, decide (sid = op.sessionId) = true → NoneStored s sid := by
      refine within_deleted_iff h (fun _ _ => Iff.rfl) (fun sid id => stored_filter
        (fun sid => decide (sid = op.sessionId)) ?_) hunsynced
      exact List.filter_congr fun row _ => decide_not
    rw [hdeleted]
    constructor
    · rintro hnone op' hop'
      obtain rfl : op = op' := Option.some.inj (hop.symm.trans hop')
      exact hnone _ (decide_eq_true rfl)
    · intro hnone sid hsid
      rw [of_decide_eq_true hsid]
      exact hnone op hop

/-- **One step**, when it can be taken. -/
theorem keepsTranscripts_step_iff {l : SessionLabel} (htyped : StoreTyped s) (hloaded : LoadedMatches s)
    (h : TranscriptsWithin maxTurns s) (hstep : sessionStep cfg s l = some s') :
    KeepsTranscripts cfg maxTurns s l ↔ StaysWithin maxTurns s l := by
  cases l with
  | call l =>
    rw [← within_move_iff htyped hloaded h (storeMove_of_step hstep)]
    refine ⟨fun hall => hall s' hstep, fun hwithin s'' hs'' => ?_⟩
    obtain rfl : s' = s'' := Option.some.inj (hstep.symm.trans hs'')
    exact hwithin
  | purge stale => exact within_purge_iff stale h

/-- What holds of every state a run that keeps the transcripts reaches. -/
structure TranscriptInv (maxTurns : Nat) (s : StoreState) : Prop where
  /-- The objects. -/
  typed : StoreTyped s
  /-- The rehydrations. -/
  loaded : LoadedMatches s
  /-- The transcripts. -/
  within : TranscriptsWithin maxTurns s

theorem transcriptInv_init : TranscriptInv maxTurns .init where
  typed := storeTyped_init
  loaded op hop := by cases hop
  within sid r hr := by
    obtain ⟨obj, hobj, -⟩ := hr
    cases hobj

theorem transcriptInv_step {l : SessionLabel} (h : TranscriptInv maxTurns s)
    (hkeeps : KeepsTranscripts cfg maxTurns s l) (hstep : sessionStep cfg s l = some s') :
    TranscriptInv maxTurns s' := by
  cases l with
  | call l =>
    have hmove := storeMove_of_step hstep
    exact ⟨storeTyped_move h.typed hmove, loadedMatches_move h.loaded hmove, hkeeps s' hstep⟩
  | purge stale =>
    have hwithin := hkeeps s' hstep
    obtain rfl := Option.some.inj hstep
    refine ⟨h.typed.withDb fun row hrow => ?_, h.loaded, hwithin⟩
    exact h.typed.known row (List.mem_filter.mp hrow).1

end Steps

/-! ## One turn too many -/

/-- Two questions, one after the other. -/
def secondAsk : List SessionLabel :=
  [.call (.create "s1" (some "ann")), .call (.commitCreate 0),
   .call (.begin (.ask "total sales") "s1" (some "ann")), .call (.look 1), .call (.startAsk 1),
   .call (.append 1 "t1" emptyOutcome), .call (.upsertSession 1), .call (.saveTurn 1),
   .call (.begin (.ask "by month") "s1" (some "ann")), .call (.look 2), .call (.startAsk 2),
   .call (.append 2 "t2" emptyOutcome), .call (.upsertSession 2), .call (.saveTurn 2)]

end LocalSqlAgent
