import LocalSqlAgent.Session.NoLostTurn

/-! # The order of the turns

A question takes its turn's index from the length of the transcript, waits for the model, and appends.
`load_turns` orders the stored turns by their index.

* **`TurnsInOrder`**: stored turns have different indices and come in the order of the transcript.
* **`turnsInOrder_of_runWhere`**: it holds in every run in which no turn is appended between a question's
  index and its append.
* **`overlappingAsks_not_turnsInOrder`**: questions that overlap share an index. -/

namespace LocalSqlAgent

/-- The object is live, or a question holds it. -/
def StoreState.InUse (s : StoreState) (sid : String) (obj : Nat) : Prop :=
  (sid, obj) ∈ s.hot ∨ ∃ op ∈ s.ops, op.sessionId = sid ∧ op.holds = some obj

/-- **The stored turns of every session are in order.** -/
structure TurnsInOrder (s : StoreState) : Prop where
  /-- No index twice. -/
  distinct : ∀ sid, ((s.db.rowsOf sid).map (·.turn.index)).Nodup
  /-- The order of the transcript. -/
  ordered : ∀ sid obj, s.InUse sid obj → ∀ r ∈ s.heap[obj]?,
    (s.db.loadTurns sid).Sublist (r.turns.map Turn.reloaded)

/-- **The condition on a step**: a question appends only to the transcript whose length it has read; a
lookup installs an object, and a deletion runs, only while no question holds the session. -/
def AsksInTurn (cfg : StoreSettings) (s : StoreState) (l : StoreLabel) : Prop :=
  DeletesAlone cfg s l ∧ InstallsStored s l ∧ AppendsNext s l

instance (cfg : StoreSettings) (s : StoreState) (l : StoreLabel) : Decidable (AsksInTurn cfg s l) := by
  unfold AsksInTurn
  infer_instance

variable {cfg : StoreSettings} {s : StoreState} {sid : String} {v : SessionView}

/-- The logs agree in every run whose steps meet the condition. -/
theorem sessionAgrees_of_runWhere {labels : List StoreLabel}
    (h : RunWhere (storeStep cfg) (AsksInTurn cfg) .init labels s) (sid : String) : ∃ v, SessionAgrees s sid v := by
  have hboth : StoreTyped s ∧ ∀ sid, ∃ v, SessionAgrees s sid v := by
    refine h.invariant (I := fun s => StoreTyped s ∧ ∀ sid, ∃ v, SessionAgrees s sid v)
      ⟨storeTyped_init, fun sid => ⟨_, sessionAgrees_init sid⟩⟩ ?_
    rintro s l s' ⟨htyped, hagrees⟩ ⟨halone, hstored, hnext⟩ hstep
    have hmove := storeMove_of_step hstep
    exact ⟨storeTyped_move htyped hmove, sessionAgrees_move htyped hagrees halone hstored hnext hmove⟩
  exact hboth.2 sid

/-- An object in use shows the log. -/
theorem SessionAgrees.showsLog (h : SessionAgrees s sid v) {obj : Nat} (huse : s.InUse sid obj) :
    ShowsLog s.heap sid v.log obj := by
  rcases huse with hhot | ⟨op, hop, hsid, hholds⟩
  · exact (h.hot _ hhot rfl).2
  · exact ((h.ops op hop hsid).held obj hholds).2

/-- Agreement is order. -/
theorem SessionAgrees.distinct (h : SessionAgrees s sid v) : ((s.db.rowsOf sid).map (·.turn.index)).Nodup := by
  have hperm : ((s.db.loadTurns sid).map (·.index)).Perm ((s.db.rowsOf sid).map (·.turn.index)) := by
    rw [SessionTables.loadTurns, List.map_map]
    exact (List.perm_insertionSort _ _).map _
  -- the log's indices count from one, and what is stored is a part of the log
  rw [← hperm.nodup_iff, h.loadTurns_eq_filter]
  have hindices : (v.log.map (·.index)).Nodup := by
    rw [h.numbered.index]
    exact List.nodup_range'
  exact hindices.sublist (List.filter_sublist.map _)

/-- **The stored turns are in order** in every run whose questions take turns. -/
theorem turnsInOrder_of_runWhere {labels : List StoreLabel}
    (h : RunWhere (storeStep cfg) (AsksInTurn cfg) .init labels s) : TurnsInOrder s := by
  constructor
  · intro sid
    obtain ⟨v, hv⟩ := sessionAgrees_of_runWhere h sid
    exact hv.distinct
  · intro sid obj huse r hr
    obtain ⟨v, hv⟩ := sessionAgrees_of_runWhere h sid
    obtain ⟨x, hx, -, hlog⟩ := hv.showsLog huse
    obtain rfl : x = r := Option.some.inj (hx.symm.trans hr)
    rw [hlog, hv.loadTurns_eq_filter]
    exact List.filter_sublist

/-! ## Overlapping questions -/

/-- A question waits while two others follow one another; then it appends, and all three are synced. -/
def overlappingAsks : List StoreLabel :=
  [.create "s1" (some "ann"), .commitCreate 0,
   .begin (.ask "total sales") "s1" (some "ann"), .look 1, .startAsk 1,
   .begin (.ask "by month") "s1" (some "ann"), .look 2, .startAsk 2, .append 2 "t2" emptyOutcome,
   .begin (.ask "by year") "s1" (some "ann"), .look 3, .startAsk 3, .append 3 "t3" emptyOutcome,
   .append 1 "t1" emptyOutcome, .upsertSession 1, .saveTurn 1, .upsertSession 2, .saveTurn 2,
   .upsertSession 3, .saveTurn 3]

/-- **Two turns have one index**, and the stored order is not the transcript's. -/
theorem overlappingAsks_not_turnsInOrder :
    ∃ s, run (storeStep defaultSettings) .init overlappingAsks = some s ∧
      (s.db.rowsOf "s1").map (fun row => (row.turn.turnId, row.turn.index)) = [("t1", 1), ("t2", 1), ("t3", 2)] ∧
      (s.heap.map fun r => r.turns.map (·.turnId)) = [["t2", "t3", "t1"]] ∧
      (s.db.loadTurns "s1").map (·.turnId) = ["t1", "t2", "t3"] ∧ ¬ TurnsInOrder s := by
  refine ⟨_, rfl, by decide, by decide, by decide, fun h => ?_⟩
  exact absurd (h.distinct "s1") (by decide)

/-- Two questions overlap, and the one that has read its index first fails. -/
def failedAsk : List StoreLabel :=
  [.create "s1" (some "ann"), .commitCreate 0,
   .begin (.ask "total sales") "s1" (some "ann"), .look 1, .startAsk 1,
   .begin (.ask "by month") "s1" (some "ann"), .look 2, .startAsk 2, .append 2 "t2" emptyOutcome,
   .fail 1, .begin (.ask "by year") "s1" (some "ann"), .look 3, .startAsk 3, .append 3 "t3" emptyOutcome,
   .upsertSession 3, .saveTurn 3, .upsertSession 2, .saveTurn 2]

theorem failedAsk_turnsInOrder :
    ∃ s, RunWhere (storeStep defaultSettings) (AsksInTurn defaultSettings) .init failedAsk s ∧
      (s.db.loadTurns "s1").map (·.turnId) = ["t2", "t3"] ∧ TurnsInOrder s :=
  have hrun : RunWhere (storeStep defaultSettings) (AsksInTurn defaultSettings) .init failedAsk _ :=
    runWhere_sound rfl
  ⟨_, hrun, by decide, turnsInOrder_of_runWhere hrun⟩

end LocalSqlAgent
