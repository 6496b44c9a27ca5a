import LocalSqlAgent.Session.StoreRuns

/-! # Deletion

`DELETE /v2/sessions/{sid}` looks the session up, drops it from the live sessions and deletes its rows
in one transaction. A question in flight keeps the object it looked up, and its `sync_turn` upserts the
session row; a lookup in flight has read the row and installs the object it builds.

* **`DeletionFinal`**: nothing is left of a deleted session once its questions have finished.
* **`deletionFinal_of_runWhere`**: it holds in every run in which no deletion's transaction runs while
  a question or a lookup holds the session.
* **`deleteDuringAsk_not_deletionFinal`**: a question in flight brings a deleted session back. -/

namespace LocalSqlAgent

/-- A question holds this object. -/
def StoreOp.holds (op : StoreOp) : Option Nat :=
  match op.phase with
  | .found obj =>
    match op.kind with
    | .ask _ => some obj
    | _ => none
  | .asking obj _ | .appended obj _ | .upserted obj _ => some obj
  | _ => none

/-- The call can put its session back: a question that holds an object of it, or a lookup that has
read its row. -/
def StoreOp.revives (op : StoreOp) : Bool :=
  match op.phase with
  | .rowLoaded _ _ | .turnsLoaded _ _ _ _ => true
  | _ => op.holds.isSome

/-- A deletion that has returned, other than by refusing. -/
def StoreOp.deleteReturned (op : StoreOp) : Bool :=
  op.kind = .delete && (op.phase = .finished .deleted || op.phase = .finished .notFound)

/-- The call has ended. -/
def StoreOp.isFinished (op : StoreOp) : Bool :=
  match op.phase with
  | .finished _ => true
  | _ => false

/-- The call is a question. -/
def StoreOp.isAsk (op : StoreOp) : Bool :=
  match op.kind with
  | .ask _ => true
  | _ => false

section

variable (cfg : StoreSettings)

/-- **Deletion is final**: when a deletion has returned and every question on the session has finished,
no row of the session exists, no live object of it, and `get` finds nothing. -/
def DeletionFinal (s : StoreState) : Prop :=
  ∀ op ∈ s.ops, op.deleteReturned = true →
    (∀ op' ∈ s.ops, op'.sessionId = op.sessionId → op'.isAsk = true → op'.isFinished = true) →
    ¬ s.db.HasSession op.sessionId ∧ ¬ s.db.HasTurns op.sessionId ∧
      (∀ e ∈ s.hot, e.1 ≠ op.sessionId) ∧ ∀ now, (s.get cfg op.sessionId now).2 = none

/-- **The condition on a step**: a deletion's transaction runs only while no other call can put the
session back and no live object of it has been installed since the deletion dropped the last one; and
sessions are not switched off for the lookup a deletion starts with. -/
def DeletesAlone (s : StoreState) : StoreLabel → Prop
  | .look c => ∀ op ∈ s.ops[c]?, op.kind = .delete → 0 < cfg.ttl
  | .deleteRows c => ∀ op ∈ s.ops[c]?,
      (∀ op' ∈ s.ops, op'.sessionId = op.sessionId → op'.revives = false) ∧
        ∀ e ∈ s.hot, e.1 ≠ op.sessionId
  | _ => True

instance (s : StoreState) (l : StoreLabel) : Decidable (DeletesAlone cfg s l) := by
  unfold DeletesAlone
  split <;> infer_instance

end

/-! ## The invariant -/

/-- **The invariant**: whatever could bring a session back has a session row behind it, and a session
deleted has none. -/
structure DeletionInv (s : StoreState) : Prop where
  /-- A call that can put a session back. -/
  revives : ∀ op ∈ s.ops, op.revives = true → s.db.HasSession op.sessionId
  /-- A live session, once its creation has returned. -/
  hot : ∀ e ∈ s.hot, s.db.HasSession e.1 ∨ s.Creating e.1
  /-- A stored turn. -/
  turns : ∀ row ∈ s.db.turns, s.db.HasSession row.sessionId
  /-- A session a returned deletion names. -/
  deleted : ∀ op ∈ s.ops, op.deleteReturned = true →
    ¬ s.db.HasSession op.sessionId ∧ ¬ s.Creating op.sessionId
  /-- No other call names a session being created. -/
  alone : ∀ (c c' : Nat) (op op' : StoreOp), s.ops[c]? = some op → s.ops[c']? = some op' →
    StoreState.isCreating op = true → op'.sessionId = op.sessionId → c' = c

section Invariant

variable {cfg : StoreSettings} {s s' : StoreState} {c : Nat} {op : StoreOp}

/-- Changing what the invariant does not look at, and forgetting live sessions. -/
theorem DeletionInv.congr (h : DeletionInv s) (hdb : s'.db = s.db) (hops : s'.ops = s.ops)
    (hhot : ∀ e ∈ s'.hot, s.db.HasSession e.1 ∨ s.Creating e.1) : DeletionInv s' := by
  have hcreating : ∀ sid, s'.Creating sid ↔ s.Creating sid := fun sid => by
    rw [StoreState.Creating, StoreState.Creating, hops]
  constructor
  · rw [hops, hdb]
    exact h.revives
  · intro e he
    rw [hdb, hcreating]
    exact hhot e he
  · rw [hdb]
    exact h.turns
  · intro op hop hret
    rw [hdb, hcreating]
    exact h.deleted op (hops ▸ hop) hret
  · rw [hops]
    exact h.alone

/-- Only the session's own call names a session being created. -/
theorem DeletionInv.not_creating (h : DeletionInv s) (hop : s.ops[c]? = some op)
    (hphase : StoreState.isCreating op = false) : ¬ s.Creating op.sessionId := by
  rw [s.creating_iff]
  rintro ⟨op', hop', hsid, hcreating⟩
  obtain ⟨c', hc'⟩ := List.mem_iff_getElem?.mp hop'
  obtain rfl := h.alone c' c op' op hc' hop hcreating hsid.symm
  rw [hop, Option.some.injEq] at hc'
  rw [hc', hcreating] at hphase
  cases hphase

/-- Moving a call on, when neither end of the move is in a creation. -/
theorem creating_setPhase {phase : RequestPhase} {sid : String} (hop : s.ops[c]? = some op)
    (hold : StoreState.isCreating op = false)
    (hnew : StoreState.isCreating { op with phase := phase } = false) :
    (s.setPhase c op phase).Creating sid ↔ s.Creating sid := by
  rw [StoreState.creating_iff, StoreState.creating_iff]
  refine Pool.exists_mem_set_iff hop (iff_of_false ?_ ?_)
  · rintro ⟨-, hcreating⟩
    rw [hnew] at hcreating
    cases hcreating
  · rintro ⟨-, hcreating⟩
    rw [hold] at hcreating
    cases hcreating

theorem getElem?_setPhase {phase : RequestPhase} {c' : Nat} {op' : StoreOp}
    (h : (s.setPhase c op phase).ops[c']? = some op') :
    (c' = c ∧ op' = { op with phase := phase }) ∨ (c' ≠ c ∧ s.ops[c']? = some op') := by
  rw [StoreState.setPhase, List.getElem?_set] at h
  split at h
  · rename_i heq
    split at h
    · cases h
      exact .inl ⟨heq.symm, rfl⟩
    · cases h
  · rename_i hne
    exact .inr ⟨Ne.symm hne, h⟩

theorem StoreOp.finished_of_deleteReturned (h : op.deleteReturned = true) :
    ∃ outcome, op.phase = .finished outcome := by
  simp only [StoreOp.deleteReturned, Bool.and_eq_true, Bool.or_eq_true, decide_eq_true_iff] at h
  exact h.2.elim (fun hphase => ⟨_, hphase⟩) fun hphase => ⟨_, hphase⟩

/-- **A call moves on** to a phase that answers for itself. -/
theorem DeletionInv.setPhase {p : RequestPhase} (h : DeletionInv s) (hop : s.ops[c]? = some op)
    (hold : StoreState.isCreating op = false)
    (hnew : StoreState.isCreating { op with phase := p } = false)
    (hrevives : StoreOp.revives { op with phase := p } = true → s.db.HasSession op.sessionId)
    (hdeleted : ∀ outcome, p = .finished outcome →
      StoreOp.deleteReturned { op with phase := p } = true → ¬ s.db.HasSession op.sessionId) :
    DeletionInv (s.setPhase c op p) := by
  have hcreating : ∀ sid, (s.setPhase c op p).Creating sid ↔ s.Creating sid :=
    fun _ => creating_setPhase hop hold hnew
  have hnone := h.not_creating hop hold
  constructor
  · intro op' hop' hrev
    rcases mem_setPhase hop' with hmem | rfl
    · exact h.revives op' hmem hrev
    · exact hrevives hrev
  · intro e he
    rw [hcreating]
    exact h.hot e he
  · exact h.turns
  · intro op' hop' hret
    rw [hcreating]
    rcases mem_setPhase hop' with hmem | rfl
    · exact h.deleted op' hmem hret
    · obtain ⟨outcome, hphase⟩ := StoreOp.finished_of_deleteReturned hret
      exact ⟨hdeleted outcome hphase hret, hnone⟩
  · -- the call that moved creates nothing, and names its session as before
    intro c₁ c₂ op₁ op₂ h₁ h₂ hcreat hsid
    rcases getElem?_setPhase h₁ with ⟨rfl, rfl⟩ | ⟨-, hold₁⟩
    · rw [hnew] at hcreat
      cases hcreat
    · rcases getElem?_setPhase h₂ with ⟨rfl, rfl⟩ | ⟨-, hold₂⟩
      · exact h.alone c₁ c₂ op₁ op hold₁ hop hcreat hsid
      · exact h.alone c₁ c₂ op₁ op₂ hold₁ hold₂ hcreat hsid

/-- Writing rows of sessions that have one. -/
theorem DeletionInv.withDb {d : SessionTables} (h : DeletionInv s)
    (hsame : ∀ sid, d.HasSession sid ↔ s.db.HasSession sid)
    (hturns : ∀ row ∈ d.turns, s.db.HasSession row.sessionId) :
    DeletionInv { s with db := d } := by
  constructor
  · exact fun op hop hrev => (hsame _).mpr (h.revives op hop hrev)
  · exact fun e he => (h.hot e he).imp (hsame _).mpr id
  · exact fun row hrow => (hsame _).mpr (hturns row hrow)
  · intro op hop hret
    obtain ⟨hsession, hcreating⟩ := h.deleted op hop hret
    exact ⟨fun hnew => hsession ((hsame _).mp hnew), hcreating⟩
  · exact h.alone

/-- Deleting the rows of a session that nothing can put back. -/
theorem DeletionInv.deleteSession {sid : String} (h : DeletionInv s)
    (hops : ∀ op ∈ s.ops, op.sessionId = sid → op.revives = false)
    (hhot : ∀ e ∈ s.hot, e.1 ≠ sid) : DeletionInv { s with db := s.db.deleteSession sid } := by
  constructor
  · intro op hop hrev
    refine hasSession_deleteSession.mpr ⟨h.revives op hop hrev, fun hsid => ?_⟩
    rw [hops op hop hsid] at hrev
    cases hrev
  · exact fun e he => (h.hot e he).imp (fun hs => hasSession_deleteSession.mpr ⟨hs, hhot e he⟩) id
  · intro row hrow
    obtain ⟨hmem, hne⟩ := List.mem_filter.mp hrow
    exact hasSession_deleteSession.mpr ⟨h.turns row hmem, by simpa using hne⟩
  · intro op hop hret
    obtain ⟨hsession, hcreating⟩ := h.deleted op hop hret
    exact ⟨fun hnew => hsession (hasSession_deleteSession.mp hnew).1, hcreating⟩
  · exact h.alone

theorem StoreOp.revives_of_holds {obj : Nat} (h : op.holds = some obj) : op.revives = true := by
  rw [StoreOp.revives]
  split
  · rfl
  · rfl
  · rw [h]
    rfl

/-- A session whose object a question holds has a row. -/
theorem DeletionInv.hasSession (h : DeletionInv s) (hop : s.ops[c]? = some op) {o : Nat}
    (hholds : op.holds = some o) : s.db.HasSession op.sessionId :=
  h.revives op (List.mem_of_getElem? hop) (StoreOp.revives_of_holds hholds)

theorem isCreating_eq {phase : RequestPhase} (hphase : op.phase = phase) :
    StoreState.isCreating op = StoreState.isCreating { op with phase := phase } := by
  rw [← hphase]

/-- Creating a session nobody has named. -/
theorem DeletionInv.create {sid : String} {hot' : List HotEntry} {heap' : List SessionRecord}
    {ownerId : Option String} {obj : Nat} (h : DeletionInv s) (hfresh : s.FreshSession sid)
    (hhot : ∀ e ∈ hot', e.1 = sid ∨ e ∈ s.hot) :
    DeletionInv ⟨heap', hot', s.db, s.clock,
      s.ops ++ [⟨.create, sid, ownerId, .creating obj⟩]⟩ := by
  have hnew : (⟨heap', hot', s.db, s.clock,
      s.ops ++ [⟨.create, sid, ownerId, .creating obj⟩]⟩ : StoreState).Creating sid :=
    ⟨_, List.mem_append_right _ (List.mem_singleton_self _), rfl, obj, rfl⟩
  constructor
  · intro op hop hrev
    rcases List.mem_append.mp hop with hmem | hlast
    · exact h.revives op hmem hrev
    · rw [List.mem_singleton] at hlast
      rw [hlast] at hrev
      cases hrev
  · intro e he
    rcases hhot e he with rfl | hmem
    · exact .inr hnew
    · refine (h.hot e hmem).imp id ?_
      rintro ⟨op, hop, hrest⟩
      exact ⟨op, List.mem_append_left _ hop, hrest⟩
  · exact h.turns
  · intro op hop hret
    rcases List.mem_append.mp hop with hmem | hlast
    · obtain ⟨hsession, hcreating⟩ := h.deleted op hmem hret
      refine ⟨hsession, ?_⟩
      rintro ⟨op', hop', hsid, hphase⟩
      rcases List.mem_append.mp hop' with hmem' | hlast
      · exact hcreating ⟨op', hmem', hsid, hphase⟩
      · rw [List.mem_singleton] at hlast
        rw [hlast] at hsid
        exact hfresh op hmem hsid.symm
    · rw [List.mem_singleton] at hlast
      rw [hlast] at hret
      cases hret
  · intro c c' op op' hc hc' hcreat hsid
    -- no other call names the new session
    rcases Pool.getElem?_append_singleton hc with hold | ⟨hlast, rfl⟩ <;>
      rcases Pool.getElem?_append_singleton hc' with hold' | ⟨hlast', rfl⟩
    · exact h.alone c c' op op' hold hold' hcreat hsid
    · exact absurd hsid.symm (hfresh op (List.mem_of_getElem? hold))
    · exact absurd hsid (hfresh op' (List.mem_of_getElem? hold'))
    · exact hlast'.trans hlast.symm

/-- A request begins: it names no session that is being created. -/
theorem DeletionInv.begin (h : DeletionInv s) (hphase : ∃ now, op.phase = .looking now)
    (hcreating : ¬ s.Creating op.sessionId) : DeletionInv { s with ops := s.ops ++ [op] } := by
  obtain ⟨now, hphase⟩ := hphase
  have hnew : StoreState.isCreating op = false := isCreating_eq hphase
  have hcreatingIff : ∀ sid, StoreState.Creating { s with ops := s.ops ++ [op] } sid ↔
      s.Creating sid := by
    intro sid
    constructor
    · rintro ⟨op', hop', hsid, obj, hphase'⟩
      rcases List.mem_append.mp hop' with hmem | hlast
      · exact ⟨op', hmem, hsid, obj, hphase'⟩
      · rw [List.mem_singleton.mp hlast, hphase] at hphase'
        cases hphase'
    · rintro ⟨op', hop', hrest⟩
      exact ⟨op', List.mem_append_left _ hop', hrest⟩
  constructor
  · intro op' hop' hrev
    rcases List.mem_append.mp hop' with hmem | hlast
    · exact h.revives op' hmem hrev
    · rw [List.mem_singleton.mp hlast, StoreOp.revives, StoreOp.holds, hphase] at hrev
      cases hrev
  · intro e he
    rw [hcreatingIff]
    exact h.hot e he
  · exact h.turns
  · intro op' hop' hret
    rw [hcreatingIff]
    rcases List.mem_append.mp hop' with hmem | hlast
    · exact h.deleted op' hmem hret
    · rw [List.mem_singleton] at hlast
      subst hlast
      obtain ⟨outcome, hfin⟩ := StoreOp.finished_of_deleteReturned hret
      rw [hphase] at hfin
      cases hfin
  · intro c c' op₁ op₂ hc hc' hcreat hsid
    rcases Pool.getElem?_append_singleton hc with hold | ⟨-, heq⟩
    · rcases Pool.getElem?_append_singleton hc' with hold' | ⟨-, rfl⟩
      · exact h.alone c c' op₁ op₂ hold hold' hcreat hsid
      · -- the new call names no session being created
        refine absurd ?_ hcreating
        rw [hsid]
        exact (s.creating_iff).mpr ⟨op₁, List.mem_of_getElem? hold, rfl, hcreat⟩
    · rw [heq, hnew] at hcreat
      cases hcreat

/-- The session row of a creation is written and the creation returns. -/
theorem DeletionInv.commitCreate {row : SessionRow} {obj : Nat} (h : DeletionInv s)
    (hop : s.ops[c]? = some op) (hphase : op.phase = .creating obj)
    (hrow : row.sessionId = op.sessionId) :
    DeletionInv { s.setPhase c op (.finished .created) with db := s.db.upsertSession row } := by
  have hop' : StoreState.isCreating op = true := isCreating_eq hphase
  have hkeep : ∀ sid, s.db.HasSession sid → (s.db.upsertSession row).HasSession sid :=
    fun sid hs => hasSession_upsertSession.mpr (.inl hs)
  -- while a session is being created no other call names it
  have hother : ∀ op' : StoreOp, op' ∈ s.ops → op' = op ∨ op'.sessionId ≠ op.sessionId := by
    intro op' hmem
    obtain ⟨c', hc'⟩ := List.mem_iff_getElem?.mp hmem
    by_cases hsid : op'.sessionId = op.sessionId
    · obtain rfl := h.alone c c' op op' hop hc' hop' hsid
      rw [hop, Option.some.injEq] at hc'
      exact .inl hc'.symm
    · exact .inr hsid
  have hcreating : ∀ sid, StoreState.Creating
      { s.setPhase c op (.finished .created) with db := s.db.upsertSession row } sid →
        s.Creating sid := by
    rintro sid ⟨op', hmem, hsid, obj', hphase'⟩
    rcases mem_setPhase hmem with hold | rfl
    · exact ⟨op', hold, hsid, obj', hphase'⟩
    · cases hphase'
  constructor
  · intro op' hmem hrev
    rcases mem_setPhase hmem with hold | rfl
    · exact hkeep _ (h.revives op' hold hrev)
    · cases hrev
  · intro e he
    rcases h.hot e he with hs | ⟨op', hmem, hsid, obj', hphase'⟩
    · exact .inl (hkeep _ hs)
    · rcases hother op' hmem with rfl | hne
      · exact .inl (hasSession_upsertSession.mpr (.inr (by rw [hrow, hsid])))
      · refine .inr ⟨op', mem_setPhase_of_ne hmem fun hsame => hne ?_, hsid, obj', hphase'⟩
        rw [Option.some.inj (hop.symm.trans hsame)]
  · rw [upsertSession_turns]
    exact fun row' hrow' => hkeep _ (h.turns row' hrow')
  · intro op' hmem hret
    rcases mem_setPhase hmem with hold | rfl
    · obtain ⟨hsession, hnone⟩ := h.deleted op' hold hret
      refine ⟨fun hs => ?_, fun hc => hnone (hcreating _ hc)⟩
      rcases hasSession_upsertSession.mp hs with hs | hsid
      · exact hsession hs
      · -- the row written is of a session that was still being created
        refine hnone ⟨op, List.mem_of_getElem? hop, ?_, obj, hphase⟩
        rw [hsid, hrow]
    · obtain ⟨outcome, hfin⟩ := StoreOp.finished_of_deleteReturned hret
      cases hfin
      simp [StoreOp.deleteReturned] at hret
  · intro c₁ c₂ op₁ op₂ h₁ h₂ hcreat hsid
    rcases getElem?_setPhase h₁ with ⟨rfl, rfl⟩ | ⟨-, hold₁⟩
    · cases hcreat
    · rcases getElem?_setPhase h₂ with ⟨rfl, rfl⟩ | ⟨-, hold₂⟩
      · exact h.alone c₁ c₂ op₁ op hold₁ hop hcreat hsid
      · exact h.alone c₁ c₂ op₁ op₂ hold₁ hold₂ hcreat hsid

/-- **The step lemma.** -/
theorem deletionInv_move {l : StoreLabel} (htyped : StoreTyped s) (h : DeletionInv s)
    (halone : DeletesAlone cfg s l) (hmove : StoreMove cfg s l s') : DeletionInv s' := by
  cases hmove with
  | tick d => exact h.congr rfl rfl h.hot
  | create hfresh =>
    refine h.create hfresh fun e he => ?_
    rcases mem_hotSet he with rfl | ⟨hold, -⟩
    · exact .inl rfl
    · exact .inr ((makeRoomFor_sublist s.hot).subset hold)
  | commitCreate hop hphase hobj => exact h.commitCreate hop hphase rfl
  | begin hkind hcreating => exact h.begin ⟨_, rfl⟩ hcreating
  | @disabled c op now hop hphase httl =>
    refine h.setPhase hop (isCreating_eq hphase) rfl nofun fun _ _ hret => ?_
    -- a lookup that finds sessions switched off is no deletion's
    rw [StoreOp.deleteReturned, Bool.and_eq_true, decide_eq_true_iff] at hret
    exact absurd (halone op hop hret.1) (not_lt.mpr httl)
  | @hit c obj op now r hop hphase httl hhot hobj =>
    have hcreating := isCreating_eq hphase
    have hsession : s.db.HasSession op.sessionId :=
      (h.hot _ hhot).resolve_right (h.not_creating hop hcreating)
    refine DeletionInv.setPhase (h.congr rfl rfl fun e he => ?_) hop hcreating rfl
      (fun _ => hsession) nofun
    rcases List.mem_append.mp he with hold | hnew
    · exact h.hot e (mem_hotErase.mp hold).1
    · rw [List.mem_singleton] at hnew
      rw [hnew]
      exact .inl hsession
  | miss hop hphase httl hhot =>
    exact DeletionInv.setPhase (h.congr rfl rfl fun e he => h.hot e (hhot.subset he)) hop
      (isCreating_eq hphase) rfl nofun nofun
  | rowMissing hop hphase hrow =>
    exact h.setPhase hop (isCreating_eq hphase) rfl nofun fun _ _ _ => hrow
  | rowLoaded hop hphase hrow =>
    exact h.setPhase hop (isCreating_eq hphase) rfl (fun _ => hasSession_of_loadSessionRow hrow) nofun
  | turnsLoaded hop hphase =>
    refine h.setPhase hop (isCreating_eq hphase) rfl (fun _ => ?_) nofun
    exact h.revives _ (List.mem_of_getElem? hop) (by rw [StoreOp.revives, hphase])
  | @install c op now row turns memory hop hphase =>
    have hsession : s.db.HasSession op.sessionId :=
      h.revives _ (List.mem_of_getElem? hop) (by rw [StoreOp.revives, hphase])
    refine DeletionInv.setPhase (h.congr rfl rfl fun e he => ?_) hop (isCreating_eq hphase) rfl
      (fun _ => hsession) nofun
    rcases mem_hotSet he with rfl | ⟨hold, -⟩
    · exact .inl hsession
    · exact h.hot e ((makeRoomFor_sublist s.hot).subset hold)
  | @startAsk c obj op question r hop hkind hphase hobj howns =>
    refine h.setPhase hop (isCreating_eq hphase) rfl (fun _ => ?_) nofun
    exact h.hasSession hop (o := obj) (by rw [StoreOp.holds, hphase, hkind])
  | giveUp hop hphase houtcome hlabel =>
    refine h.setPhase hop ?_ rfl nofun fun outcome hfin hret => ?_
    · obtain ⟨obj, hfound | ⟨index, hasking⟩⟩ := hphase
      · exact isCreating_eq hfound
      · exact isCreating_eq hasking
    · rcases houtcome with rfl | rfl <;> simp [StoreOp.deleteReturned] at hret
  | @append c obj index op turn memory outcome r hop hphase hobj hfresh hindex =>
    refine DeletionInv.setPhase (show DeletionInv (s.setObj obj _) from h.congr rfl rfl h.hot) hop
      (isCreating_eq hphase) rfl (fun _ => ?_) nofun
    exact h.hasSession hop (o := obj) (by rw [StoreOp.holds, hphase])
  | @upsertSession c obj op turn r hop hphase hobj =>
    have hsession : s.db.HasSession op.sessionId :=
      h.hasSession hop (o := obj) (by rw [StoreOp.holds, hphase])
    have hsid : r.sessionId = op.sessionId :=
      htyped.sessionId_eq hop (by rw [hphase]; rfl) hobj
    have hset : DeletionInv (s.setObj obj { r with title := syncedTitle cfg r turn }) :=
      h.congr rfl rfl h.hot
    have hdb := hset.withDb (d := s.db.upsertSession
      ⟨r.sessionId, r.ownerId, syncedTitle cfg r turn, r.createdAt⟩) ?_ ?_
    · refine hdb.setPhase hop (isCreating_eq hphase) rfl (fun _ => ?_) nofun
      exact hasSession_upsertSession.mpr (.inl hsession)
    · intro sid
      rw [hasSession_upsertSession, hsid]
      constructor
      · rintro (hs | rfl)
        · exact hs
        · exact hsession
      · exact .inl
    · rw [upsertSession_turns]
      exact h.turns
  | @saveTurn c obj op turn r hop hphase hobj =>
    have hsession : s.db.HasSession op.sessionId :=
      h.hasSession hop (o := obj) (by rw [StoreOp.holds, hphase])
    have hsid : r.sessionId = op.sessionId :=
      htyped.sessionId_eq hop (by rw [hphase]; rfl) hobj
    refine DeletionInv.setPhase (p := .finished .synced)
      (h.withDb (d := s.db.saveTurn r.sessionId turn (r.memoryFor turn.turnId))
        (fun sid => Iff.rfl) fun row hrow => ?_)
      hop (isCreating_eq hphase) rfl nofun fun _ _ hret => ?_
    · rcases List.mem_append.mp hrow with hold | hnew
      · exact h.turns row (List.mem_filter.mp hold).1
      · rw [List.mem_singleton.mp hnew, hsid]
        exact hsession
    · simp [StoreOp.deleteReturned] at hret
  | removeHot hop hphase hobj howns =>
    exact DeletionInv.setPhase
      (show DeletionInv { s with hot := hotErase _ s.hot } from
        h.congr rfl rfl fun e he => h.hot e (mem_hotErase.mp he).1)
      hop (isCreating_eq hphase) rfl nofun nofun
  | @deleteRows c op hop hphase =>
    obtain ⟨hops, hhot⟩ := halone op hop
    refine (h.deleteSession hops hhot).setPhase hop (isCreating_eq hphase) rfl nofun fun _ _ _ => ?_
    exact fun hs => (hasSession_deleteSession.mp hs).2 rfl

/-! ## Runs -/

theorem deletionInv_init : DeletionInv .init where
  revives op hop := by cases hop
  hot e he := by cases he
  turns row hrow := by cases hrow
  deleted op hop := by cases hop
  alone c c' op op' hop := by
    rw [StoreState.init, List.getElem?_nil] at hop
    cases hop

/-- The invariant holds in every run whose deletions run alone. -/
theorem deletionInv_of_runWhere {labels : List StoreLabel}
    (h : RunWhere (storeStep cfg) (DeletesAlone cfg) .init labels s) : DeletionInv s := by
  have hboth : StoreTyped s ∧ DeletionInv s := by
    refine h.invariant (I := fun s => StoreTyped s ∧ DeletionInv s)
      ⟨storeTyped_init, deletionInv_init⟩ ?_
    intro s l s' hI halone hstep
    have hmove := storeMove_of_step hstep
    exact ⟨storeTyped_move hI.1 hmove, deletionInv_move hI.1 hI.2 halone hmove⟩
  exact hboth.2

theorem hotGet_eq_none {sid : String} {hot : List HotEntry} (h : ∀ e ∈ hot, e.1 ≠ sid) :
    hotGet sid hot = none := by
  rw [hotGet, Option.map_eq_none_iff, List.find?_eq_none]
  exact fun e he => by simpa using h e he

/-- A session with no live object and no row is not found. -/
theorem get_eq_none {sid : String} {now : Int} (hhot : ∀ e ∈ s.hot, e.1 ≠ sid)
    (hrow : ¬ s.db.HasSession sid) : (s.get cfg sid now).2 = none := by
  rw [StoreState.get]
  split
  · rfl
  · rw [StoreState.lookHot, hotGet_eq_none hhot]
    simp only [loadSessionRow_eq_none_iff.mpr hrow]

/-- **Deletion is final** in every run in which deletions run alone. -/
theorem deletionFinal_of_runWhere {labels : List StoreLabel}
    (h : RunWhere (storeStep cfg) (DeletesAlone cfg) .init labels s) : DeletionFinal cfg s := by
  have hinv := deletionInv_of_runWhere h
  intro op hop hret _
  obtain ⟨hsession, hcreating⟩ := hinv.deleted op hop hret
  have hhot : ∀ e ∈ s.hot, e.1 ≠ op.sessionId := by
    rintro e he hsid
    have hback := hinv.hot e he
    rw [hsid] at hback
    exact hback.elim hsession hcreating
  refine ⟨hsession, ?_, hhot, fun now => get_eq_none hhot hsession⟩
  rintro ⟨row, hrow, hsid⟩
  exact hsession (hsid ▸ hinv.turns row hrow)

end Invariant

/-! ## A session brought back -/

/-- Sessions of half an hour, five hundred at once. -/
def defaultSettings : StoreSettings := ⟨1800, 500, 60⟩

/-- A turn that answered without a result. -/
def emptyOutcome : TurnOutcome := ⟨none, none, [], [], none, none⟩

/-- A question looks its session up and waits for the model; the session is deleted and the deletion
returns; the question is answered and synced. -/
def deleteDuringAsk : List StoreLabel :=
  [.create "s1" (some "ann"), .commitCreate 0,
   .begin (.ask "total sales") "s1" (some "ann"), .look 1, .startAsk 1,
   .begin .delete "s1" (some "ann"), .look 2, .removeHot 2, .deleteRows 2,
   .append 1 "t1" emptyOutcome, .upsertSession 1, .saveTurn 1]

/-- **The deleted session is back**: its row, the turn, and a lookup that finds it. -/
theorem deleteDuringAsk_not_deletionFinal :
    ∃ s, run (storeStep defaultSettings) .init deleteDuringAsk = some s ∧
      (∀ op ∈ s.ops, op.isAsk = true → op.isFinished = true) ∧
      s.db.HasSession "s1" ∧ s.db.HasTurns "s1" ∧ (s.get defaultSettings "s1" 0).2 ≠ none ∧
      ¬ DeletionFinal defaultSettings s := by
  refine ⟨_, rfl, by decide, ⟨_, List.mem_singleton_self _, rfl⟩,
    ⟨_, List.mem_singleton_self _, rfl⟩, by decide, fun h => ?_⟩
  have hgone := h _ (List.mem_of_getElem? (i := 2) rfl) rfl (by decide)
  exact hgone.1 ⟨_, List.mem_singleton_self _, rfl⟩

/-- The question is synced before the deletion drops the session. -/
def deleteAfterAsk : List StoreLabel :=
  [.create "s1" (some "ann"), .commitCreate 0,
   .begin (.ask "total sales") "s1" (some "ann"), .look 1, .startAsk 1,
   .begin .delete "s1" (some "ann"), .look 2,
   .append 1 "t1" emptyOutcome, .upsertSession 1, .saveTurn 1,
   .removeHot 2, .deleteRows 2]

theorem deleteAfterAsk_deletionFinal :
    ∃ s, RunWhere (storeStep defaultSettings) (DeletesAlone defaultSettings) .init deleteAfterAsk s ∧
      (s.ops.any StoreOp.deleteReturned = true) ∧ DeletionFinal defaultSettings s :=
  have hrun : RunWhere (storeStep defaultSettings) (DeletesAlone defaultSettings) .init
      deleteAfterAsk _ := runWhere_sound rfl
  ⟨_, hrun, rfl, deletionFinal_of_runWhere hrun⟩

end LocalSqlAgent
