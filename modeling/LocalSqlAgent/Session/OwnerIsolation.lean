import LocalSqlAgent.Session.StoreRuns

/-! # Owner isolation

A session belongs to the principal whose call created it. The store makes room for a session among its
owner's own live ones, and the routes hand a session to nobody else.

* **`AdmittedAlone`**: what a creation or a rehydration does to the live sessions.
* **`ownersIsolated_of_run`**: it holds in every run, and no call gets another owner's session. -/

namespace LocalSqlAgent

/-! ## The property -/

namespace StoreState

variable (s : StoreState)

/-- Who created the session. -/
def CreatedBy (sid : String) (ownerId : Option String) : Prop :=
  ∃ op ∈ s.ops, op.kind = .create ∧ op.sessionId = sid ∧ op.principal = ownerId

/-- `_sessions_for_owner`. -/
def sessionsForOwner (ownerId : Option String) : Nat := s.hot.countP (s.ownedBy ownerId)

/-- The session a call works on or answers with: what it holds once `_require_owned_session` lets it
through, and for a creation what it created. -/
def handedTo (op : StoreOp) : Option SessionRecord :=
  match op.phase with
  | .found obj => (s.heap[obj]?).filter (owns op.principal)
  | .creating obj | .asking obj _ | .appended obj _ | .upserted obj _ => s.heap[obj]?
  | _ => none

end StoreState

/-- `list_sessions`: the rows of the owner and those of nobody, as far as the cutoff keeps them. -/
def SessionTables.listSessions (db : SessionTables) (ownerId : Option String) (recent : SessionRow → Bool) :
    List SessionRow :=
  db.sessions.filter fun r => (r.ownerId = some (ownerId.getD "") || r.ownerId = none) && recent r

/-- The step puts a session among the live ones on its owner's behalf. -/
inductive Admits (s : StoreState) : StoreLabel → String → Option String → Prop
  | create (sid : String) (ownerId : Option String) : Admits s (.create sid ownerId) sid ownerId
  | rehydrate {c : Nat} {op : StoreOp} {now : Int} {row : SessionRow} {turns : List Turn}
      {memory : List (String × TurnMemory)} (hop : s.ops[c]? = some op)
      (hphase : op.phase = .turnsLoaded now row turns memory) :
      Admits s (.install c) op.sessionId row.ownerId

/-- **A session is admitted at its owner's expense.** -/
structure AdmittedAlone (cfg : StoreSettings) (s s' : StoreState) (sid : String) (ownerId : Option String) :
    Prop where
  /-- The loop ends: there is room, or the owner has nothing left to give up. -/
  ended : let hot' := makeRoomFor cfg.maxSize (s.ownedBy ownerId) s.hot
    (hot'.countP (s.ownedBy ownerId) < cfg.maxSize ∧ hot'.length < cfg.maxSize) ∨
      hot'.any (s.ownedBy ownerId) = false
  /-- What goes is the owner's. -/
  removed : ∀ e ∈ s.hot, e ∉ s'.hot → s.CreatedBy e.1 ownerId
  /-- The owner stays within the limit. -/
  count : s'.sessionsForOwner ownerId ≤ max cfg.maxSize 1
  /-- The new object is live. -/
  kept : (sid, s.heap.length) ∈ s'.hot

/-- **Owners are isolated.** -/
structure OwnersIsolated (cfg : StoreSettings) (s : StoreState) : Prop where
  /-- Admissions. -/
  admitted : ∀ l s' sid ownerId, Admits s l sid ownerId → storeStep cfg s l = some s' →
    AdmittedAlone cfg s s' sid ownerId
  /-- Calls. -/
  handed : ∀ op ∈ s.ops, ∀ r ∈ s.handedTo op, ∀ ownerId, s.CreatedBy r.sessionId ownerId →
    ownerId = none ∨ ownerId = op.principal
  /-- Deletions. -/
  deletes : ∀ op ∈ s.ops, op.phase = .hotRemoved → ∀ ownerId, s.CreatedBy op.sessionId ownerId →
    ownerId = none ∨ ownerId = op.principal
  /-- Listings. -/
  listed : ∀ principal recent, ∀ row ∈ s.db.listSessions (some principal) recent, ∀ ownerId,
    s.CreatedBy row.sessionId ownerId → ownerId = none ∨ ownerId = some principal

/-! ## Who created a session -/

section Owners

variable {cfg : StoreSettings} {s s' : StoreState} {c : Nat} {op : StoreOp} {sid : String}
  {ownerId : Option String}

/-- A call that moves on stays the one that created its session. -/
theorem createdBy_setPhase {phase : RequestPhase} (hop : s.ops[c]? = some op) :
    (s.setPhase c op phase).CreatedBy sid ownerId ↔ s.CreatedBy sid ownerId :=
  Pool.exists_mem_set_iff hop Iff.rfl

/-- A new call that creates nothing. -/
theorem createdBy_newOp (hkind : op.kind ≠ .create) :
    StoreState.CreatedBy { s with ops := s.ops ++ [op] } sid ownerId ↔ s.CreatedBy sid ownerId := by
  constructor
  · rintro ⟨op', hop', hkind', hrest⟩
    rcases List.mem_append.mp hop' with hold | hnew
    · exact ⟨op', hold, hkind', hrest⟩
    · rw [List.mem_singleton.mp hnew] at hkind'
      exact absurd hkind' hkind
  · rintro ⟨op', hop', hrest⟩
    exact ⟨op', List.mem_append_left _ hop', hrest⟩

/-! ## The live sessions' keys -/

theorem keys_hotErase {hot : List HotEntry} (h : (hot.map (·.1)).Nodup) :
    ((hotErase sid hot).map (·.1)).Nodup := h.sublist (List.filter_sublist.map _)

theorem hotErase_eq_self {hot : List HotEntry} (h : ∀ e ∈ hot, e.1 ≠ sid) : hotErase sid hot = hot :=
  List.filter_eq_self.mpr fun e he => decide_eq_true (h e he)

/-- A key is set: its entry is replaced, or there is one more. -/
theorem hotSet_perm {obj : Nat} {hot : List HotEntry} (hkeys : (hot.map (·.1)).Nodup) :
    (hotSet sid obj hot).Perm ((sid, obj) :: hotErase sid hot) := by
  rw [hotSet]
  split
  · rename_i hany
    induction hot with
    | nil => cases hany
    | cons e rest ih =>
      rw [List.map_cons, List.nodup_cons] at hkeys
      rw [List.map_cons]
      by_cases he : e.1 = sid
      · -- the key is this one's, and no later one's
        have hrest : ∀ e' ∈ rest, e'.1 ≠ sid := by
          rintro e' he' rfl
          exact hkeys.1 (he ▸ List.mem_map_of_mem he')
        have hmap : (rest.map fun e' => if e'.1 = sid then (sid, obj) else e') = rest :=
          (List.map_congr_left fun e' he' => if_neg (hrest e' he')).trans (List.map_id' rest)
        rw [if_pos he, hmap, hotErase, List.filter_cons_of_neg (by simpa using he), ← hotErase,
          hotErase_eq_self hrest]
      · have hany' : (rest.any fun e => e.1 = sid) = true := by simpa [he] using hany
        rw [if_neg he, hotErase, List.filter_cons_of_pos (by simpa using he), ← hotErase]
        exact ((ih hkeys.2 hany').cons e).trans (.swap _ _ _)
  · rename_i hany
    have hnone : ∀ e ∈ hot, e.1 ≠ sid := fun e he hkey =>
      hany (List.any_eq_true.mpr ⟨e, he, decide_eq_true hkey⟩)
    rw [hotErase_eq_self hnone]
    exact List.perm_append_singleton _ _

theorem keys_hotSet {obj : Nat} {hot : List HotEntry} (hkeys : (hot.map (·.1)).Nodup) :
    ((hotSet sid obj hot).map (·.1)).Nodup := by
  rw [((hotSet_perm hkeys).map _).nodup_iff, List.map_cons, List.nodup_cons]
  refine ⟨fun hmem => ?_, keys_hotErase hkeys⟩
  obtain ⟨e, he, hkey⟩ := List.mem_map.mp hmem
  exact (mem_hotErase.mp he).2 hkey

/-! ## The invariant -/

/-- The row a rehydration has loaded. -/
def StoreOp.loadedRow (op : StoreOp) : Option SessionRow :=
  match op.phase with
  | .rowLoaded _ row | .turnsLoaded _ row _ _ => some row
  | _ => none

/-- The call's owner check is behind it, or its session its own. -/
def StoreOp.pastCheck (op : StoreOp) : Bool :=
  match op.phase with
  | .creating _ | .asking _ _ | .appended _ _ | .upserted _ _ | .hotRemoved => true
  | _ => false

/-- **Every object and row carries the owner its session was created with**, and a call past its check
is that owner's. -/
structure OwnerInv (s : StoreState) : Prop where
  /-- A dictionary's keys. -/
  keys : (s.hot.map (·.1)).Nodup
  /-- A session is created once. -/
  once : ∀ sid o o', s.CreatedBy sid o → s.CreatedBy sid o' → o = o'
  /-- The objects. -/
  heap : ∀ r ∈ s.heap, s.CreatedBy r.sessionId r.ownerId
  /-- The rows. -/
  rows : ∀ row ∈ s.db.sessions, s.CreatedBy row.sessionId row.ownerId
  /-- The rows loaded. -/
  loaded : ∀ op ∈ s.ops, ∀ row, op.loadedRow = some row → s.CreatedBy op.sessionId row.ownerId
  /-- The calls. -/
  checked : ∀ op ∈ s.ops, op.pastCheck = true → ∀ o, s.CreatedBy op.sessionId o → o = none ∨ o = op.principal

/-- **A call moves on.** -/
theorem OwnerInv.setPhase {p : RequestPhase} (h : OwnerInv s) (hop : s.ops[c]? = some op)
    (hloaded : ∀ row, StoreOp.loadedRow { op with phase := p } = some row →
      s.CreatedBy op.sessionId row.ownerId)
    (hchecked : StoreOp.pastCheck { op with phase := p } = true →
      ∀ o, s.CreatedBy op.sessionId o → o = none ∨ o = op.principal) : OwnerInv (s.setPhase c op p) := by
  constructor
  · exact h.keys
  · intro sid o o' ho ho'
    rw [createdBy_setPhase hop] at ho ho'
    exact h.once sid o o' ho ho'
  · exact fun r hr => (createdBy_setPhase hop).mpr (h.heap r hr)
  · exact fun row hrow => (createdBy_setPhase hop).mpr (h.rows row hrow)
  · intro op' hop' row hrow
    rw [createdBy_setPhase hop]
    rcases mem_setPhase hop' with hold | rfl
    · exact h.loaded op' hold row hrow
    · exact hloaded row hrow
  · intro op' hop' hpast o ho
    rw [createdBy_setPhase hop] at ho
    rcases mem_setPhase hop' with hold | rfl
    · exact h.checked op' hold hpast o ho
    · exact hchecked hpast o ho

/-- A call past its check moves on. -/
theorem OwnerInv.setPast {p : RequestPhase} (h : OwnerInv s) (hop : s.ops[c]? = some op)
    (hpast : op.pastCheck = true) (hloaded : StoreOp.loadedRow { op with phase := p } = none) :
    OwnerInv (s.setPhase c op p) := by
  refine h.setPhase hop (fun row hrow => ?_) fun _ => h.checked op (List.mem_of_getElem? hop) hpast
  rw [hloaded] at hrow
  cases hrow

/-- A record of the session's owner is one the owner may use. -/
theorem OwnerInv.of_owns (h : OwnerInv s) {obj : Nat} {r : SessionRecord} (hobj : s.heap[obj]? = some r)
    (howns : StoreState.owns op.principal r = true) {o : Option String} (ho : s.CreatedBy r.sessionId o) :
    o = none ∨ o = op.principal := by
  obtain rfl := h.once _ _ _ ho (h.heap r (List.mem_of_getElem? hobj))
  simpa [StoreState.owns] using howns

/-- A call nobody's session is the creation of begins. -/
theorem OwnerInv.newOp (h : OwnerInv s) (hkind : op.kind ≠ .create) (hloaded : op.loadedRow = none)
    (hpast : op.pastCheck = false) : OwnerInv { s with ops := s.ops ++ [op] } := by
  constructor
  · exact h.keys
  · intro sid o o' ho ho'
    rw [createdBy_newOp hkind] at ho ho'
    exact h.once sid o o' ho ho'
  · exact fun r hr => (createdBy_newOp hkind).mpr (h.heap r hr)
  · exact fun row hrow => (createdBy_newOp hkind).mpr (h.rows row hrow)
  · intro op' hop' row hrow
    rcases List.mem_append.mp hop' with hold | hnew
    · exact (createdBy_newOp hkind).mpr (h.loaded op' hold row hrow)
    · rw [List.mem_singleton.mp hnew, hloaded] at hrow
      cases hrow
  · intro op' hop' hpast' o ho
    rw [createdBy_newOp hkind] at ho
    rcases List.mem_append.mp hop' with hold | hnew
    · exact h.checked op' hold hpast' o ho
    · rw [List.mem_singleton.mp hnew, hpast] at hpast'
      cases hpast'

/-- A creation of a session nobody has named: the others keep their creators. -/
theorem createdBy_create {obj : Nat} (hfresh : s.FreshSession sid) {sid' : String} {o : Option String} :
    StoreState.CreatedBy { s with ops := s.ops ++ [⟨.create, sid, ownerId, .creating obj⟩] } sid' o ↔
      (sid' ≠ sid ∧ s.CreatedBy sid' o) ∨ (sid' = sid ∧ o = ownerId) := by
  constructor
  · rintro ⟨op', hop', hkind, rfl, rfl⟩
    rcases List.mem_append.mp hop' with hold | hnew
    · exact .inl ⟨hfresh op' hold, op', hold, hkind, rfl, rfl⟩
    · rw [List.mem_singleton.mp hnew]
      exact .inr ⟨rfl, rfl⟩
  · rintro (⟨-, op', hop', hrest⟩ | ⟨rfl, rfl⟩)
    · exact ⟨op', List.mem_append_left _ hop', hrest⟩
    · exact ⟨_, List.mem_append_right _ (List.mem_singleton_self _), rfl, rfl, rfl⟩

theorem OwnerInv.create (h : OwnerInv s) (hfresh : s.FreshSession sid) (obj : Nat) :
    OwnerInv { s with ops := s.ops ++ [⟨.create, sid, ownerId, .creating obj⟩] } := by
  -- nothing there is of a session nobody has named
  have hother : ∀ {sid' : String} {o : Option String}, s.CreatedBy sid' o →
      StoreState.CreatedBy { s with ops := s.ops ++ [⟨.create, sid, ownerId, .creating obj⟩] } sid' o := by
    rintro sid' o ⟨op', hop', hrest⟩
    exact ⟨op', List.mem_append_left _ hop', hrest⟩
  constructor
  · exact h.keys
  · intro sid' o o' ho ho'
    rw [createdBy_create hfresh] at ho ho'
    rcases ho with ⟨hne, ho⟩ | ⟨heq, rfl⟩ <;> rcases ho' with ⟨hne', ho'⟩ | ⟨heq', rfl⟩
    · exact h.once sid' o o' ho ho'
    · exact absurd heq' hne
    · exact absurd heq hne'
    · rfl
  · exact fun r hr => hother (h.heap r hr)
  · exact fun row hrow => hother (h.rows row hrow)
  · intro op' hop' row hrow
    rcases List.mem_append.mp hop' with hold | hnew
    · exact hother (h.loaded op' hold row hrow)
    · rw [List.mem_singleton.mp hnew] at hrow
      cases hrow
  · intro op' hop' hpast o ho
    rw [createdBy_create hfresh] at ho
    rcases List.mem_append.mp hop' with hold | hnew
    · rcases ho with ⟨-, ho⟩ | ⟨heq, -⟩
      · exact h.checked op' hold hpast o ho
      · exact absurd heq (hfresh op' hold)
    · rw [List.mem_singleton.mp hnew] at ho ⊢
      rcases ho with ⟨hne, -⟩ | ⟨-, rfl⟩
      · exact absurd rfl hne
      · exact .inr rfl

theorem OwnerInv.withHot {hot' : List HotEntry} (h : OwnerInv s) (hkeys : (hot'.map (·.1)).Nodup) :
    OwnerInv { s with hot := hot' } := ⟨hkeys, h.once, h.heap, h.rows, h.loaded, h.checked⟩

theorem OwnerInv.setObj {obj : Nat} {r y : SessionRecord} (h : OwnerInv s) (hobj : s.heap[obj]? = some r)
    (hsid : y.sessionId = r.sessionId) (howner : y.ownerId = r.ownerId) : OwnerInv (s.setObj obj y) := by
  refine ⟨h.keys, h.once, fun r' hr' => ?_, h.rows, h.loaded, h.checked⟩
  rcases List.mem_or_eq_of_mem_set hr' with hold | rfl
  · exact h.heap r' hold
  · rw [hsid, howner]
    exact h.heap r (List.mem_of_getElem? hobj)

theorem OwnerInv.register {n : Nat} {r : SessionRecord} (h : OwnerInv s)
    (hcreated : s.CreatedBy r.sessionId r.ownerId) : OwnerInv (s.register n r) := by
  refine ⟨keys_hotSet (h.keys.sublist ((makeRoomFor_sublist s.hot).map _)), h.once, fun r' hr' => ?_, h.rows,
    h.loaded, h.checked⟩
  rcases List.mem_append.mp hr' with hold | hnew
  · exact h.heap r' hold
  · rw [List.mem_singleton.mp hnew]
    exact hcreated

theorem OwnerInv.withDb {db : SessionTables} (h : OwnerInv s)
    (hrows : ∀ row ∈ db.sessions, s.CreatedBy row.sessionId row.ownerId) : OwnerInv { s with db := db } :=
  ⟨h.keys, h.once, h.heap, hrows, h.loaded, h.checked⟩

/-- An upsert leaves the rows there were, or the new one with another creation time. -/
theorem mem_upsertSession {db : SessionTables} {row row' : SessionRow}
    (h : row' ∈ (db.upsertSession row).sessions) :
    row' ∈ db.sessions ∨ (row'.sessionId = row.sessionId ∧ row'.ownerId = row.ownerId) := by
  rw [SessionTables.upsertSession] at h
  split at h
  · obtain ⟨r, hr, rfl⟩ := List.mem_map.mp h
    split
    · exact .inr ⟨rfl, rfl⟩
    · exact .inl hr
  · rcases List.mem_append.mp h with hold | hnew
    · exact .inl hold
    · rw [List.mem_singleton.mp hnew]
      exact .inr ⟨rfl, rfl⟩

theorem OwnerInv.upsertSession (h : OwnerInv s) {row : SessionRow}
    (hcreated : s.CreatedBy row.sessionId row.ownerId) :
    OwnerInv { s with db := s.db.upsertSession row } := by
  refine h.withDb fun row' hrow' => ?_
  rcases mem_upsertSession hrow' with hold | ⟨hsid, howner⟩
  · exact h.rows row' hold
  · rw [hsid, howner]
    exact hcreated

/-- **The step lemma.** -/
theorem ownerInv_move {l : StoreLabel} (htyped : StoreTyped s) (h : OwnerInv s)
    (hmove : StoreMove cfg s l s') : OwnerInv s' := by
  cases hmove with
  | tick d => exact ⟨h.keys, h.once, h.heap, h.rows, h.loaded, h.checked⟩
  | @create sid ownerId hfresh =>
    refine (h.create hfresh s.heap.length).register (n := cfg.maxSize)
      (r := ⟨sid, s.clock, s.clock, [], [], ownerId, none⟩) ?_
    exact (createdBy_create hfresh).mpr (.inr ⟨rfl, rfl⟩)
  | @commitCreate c obj op r hop hphase hobj =>
    have hcreated : s.CreatedBy op.sessionId r.ownerId := by
      rw [← htyped.sessionId_eq hop (by rw [hphase]; rfl) hobj]
      exact h.heap r (List.mem_of_getElem? hobj)
    have hdb : OwnerInv { s with db := s.db.upsertSession ⟨op.sessionId, r.ownerId, none, r.createdAt⟩ } :=
      h.upsertSession hcreated
    exact hdb.setPast hop (by rw [StoreOp.pastCheck, hphase]) rfl
  | begin hkind hcreating => exact h.newOp hkind rfl rfl
  | disabled hop hphase httl => exact h.setPhase hop nofun nofun
  | @hit c obj op now r hop hphase httl hhot hobj =>
    -- the entry moves to the end
    have hkeys : ((hotErase op.sessionId s.hot ++ [(op.sessionId, obj)]).map (·.1)).Nodup := by
      rw [List.map_append, List.map_singleton, ← List.concat_eq_append]
      refine List.Nodup.concat (fun hmem => ?_) (keys_hotErase h.keys)
      obtain ⟨e, he, hkey⟩ := List.mem_map.mp hmem
      exact (mem_hotErase.mp he).2 hkey
    exact ((h.setObj (y := { r with lastActive := now }) hobj rfl rfl).withHot hkeys).setPhase hop nofun nofun
  | miss hop hphase httl hhot =>
    exact (h.withHot (h.keys.sublist (hhot.map _))).setPhase hop nofun nofun
  | rowMissing hop hphase hrow => exact h.setPhase hop nofun nofun
  | @rowLoaded c op now row hop hphase hrow =>
    -- the row read is the session's
    refine h.setPhase hop (fun row' hrow' => ?_) nofun
    obtain rfl : row = row' := Option.some.inj hrow'
    have hsid : row.sessionId = op.sessionId := by simpa using List.find?_some hrow
    rw [← hsid]
    exact h.rows row (List.mem_of_find?_eq_some hrow)
  | turnsLoaded hop hphase =>
    refine h.setPhase hop (fun row hrow => h.loaded _ (List.mem_of_getElem? hop) row ?_) nofun
    rw [← hrow, StoreOp.loadedRow, hphase]
    rfl
  | @install c op now row turns memory hop hphase =>
    have hcreated : s.CreatedBy op.sessionId row.ownerId :=
      h.loaded op (List.mem_of_getElem? hop) row (by rw [StoreOp.loadedRow, hphase])
    exact (h.register (n := cfg.maxSize) (r := StoreState.rebuilt op.sessionId now row turns memory)
      hcreated).setPhase hop nofun nofun
  | @startAsk c obj op question r hop hkind hphase hobj howns =>
    -- the route has compared the owner with the caller
    refine h.setPhase hop nofun fun _ o ho => h.of_owns hobj howns ?_
    rwa [htyped.sessionId_eq hop (by rw [hphase]; rfl) hobj]
  | giveUp hop hphase houtcome hlabel => exact h.setPhase hop nofun nofun
  | @append c obj index op turn memory outcome r hop hphase hobj hfresh hindex =>
    have hset : OwnerInv (s.setObj obj { r with
        turns := r.turns ++ [turn], memory := r.memory ++ [(turn.turnId, memory)] }) :=
      h.setObj hobj rfl rfl
    exact hset.setPast (p := .appended obj turn) hop (by rw [StoreOp.pastCheck, hphase]) rfl
  | @upsertSession c obj op turn r hop hphase hobj =>
    have hset : OwnerInv (s.setObj obj { r with title := syncedTitle cfg r turn }) := h.setObj hobj rfl rfl
    have hcreated : s.CreatedBy r.sessionId r.ownerId := h.heap r (List.mem_of_getElem? hobj)
    have hdb : OwnerInv { s.setObj obj { r with title := syncedTitle cfg r turn } with
        db := s.db.upsertSession ⟨r.sessionId, r.ownerId, syncedTitle cfg r turn, r.createdAt⟩ } :=
      hset.upsertSession hcreated
    exact hdb.setPast (p := .upserted obj turn) hop (by rw [StoreOp.pastCheck, hphase]) rfl
  | saveTurn hop hphase hobj =>
    have hpast := h.setPast (p := .finished .synced) hop (by rw [StoreOp.pastCheck, hphase]) rfl
    exact hpast.withDb hpast.rows
  | @removeHot c obj op r hop hphase hobj howns =>
    refine (h.withHot (keys_hotErase h.keys)).setPhase hop nofun fun _ o ho => h.of_owns hobj howns ?_
    rwa [htyped.sessionId_eq hop (by rw [hphase]; rfl) hobj]
  | deleteRows hop hphase =>
    have hpast := h.setPast (p := .finished .deleted) hop (by rw [StoreOp.pastCheck, hphase]) rfl
    exact hpast.withDb fun row hrow => hpast.rows row (List.mem_filter.mp hrow).1

theorem ownerInv_init : OwnerInv .init where
  keys := List.nodup_nil
  once sid o o' ho := by
    obtain ⟨op, hop, -⟩ := ho
    cases hop
  heap r hr := by cases hr
  rows row hrow := by cases hrow
  loaded op hop := by cases hop
  checked op hop := by cases hop

/-! ## Admissions -/

/-- Entries that stay keep their owner when an object is added. -/
theorem ownedBy_append {e : HotEntry} {r : SessionRecord} (htyped : StoreTyped s) (he : e ∈ s.hot)
    (hheap : s'.heap = s.heap ++ [r]) : s'.ownedBy ownerId e = s.ownedBy ownerId e := by
  obtain ⟨r', hr', -⟩ := htyped.hot e he
  rw [StoreState.ownedBy, StoreState.ownedBy, hheap, getElem?_heap_append hr', hr']

/-- **An admission.** -/
theorem admittedAlone_register {r : SessionRecord} {ops : List StoreOp} (htyped : StoreTyped s)
    (h : OwnerInv s) (howner : r.ownerId = ownerId)
    (hsame : ∀ e ∈ s.hot, e.1 = r.sessionId → s.CreatedBy e.1 ownerId) :
    AdmittedAlone cfg s { s.register cfg.maxSize r with ops := ops } r.sessionId ownerId := by
  subst howner
  have hroom := @makeRoomFor_room cfg.maxSize (s.ownedBy r.ownerId) s.hot
  have hsub := @makeRoomFor_sublist cfg.maxSize (s.ownedBy r.ownerId) s.hot
  have hperm := @hotSet_perm r.sessionId s.heap.length _ (h.keys.sublist (hsub.map (·.1)))
  refine ⟨hroom, fun e he hgone => ?_, ?_, hperm.symm.subset (.head _)⟩
  · -- what is not the owner's stays, unless it is the session itself
    by_contra hother
    refine hgone (hperm.symm.subset (.tail _ (mem_hotErase.mpr ⟨?_, fun heq => hother (hsame e he heq)⟩)))
    have hnot : s.ownedBy r.ownerId e = false := by
      obtain ⟨r', hr', hsid⟩ := htyped.hot e he
      rw [StoreState.ownedBy, hr', Option.any_some, decide_eq_false_iff_not]
      intro howner
      rw [← howner, ← hsid] at hother
      exact hother (h.heap r' (List.mem_of_getElem? hr'))
    have hfilter := @makeRoomFor_filter_not_owned cfg.maxSize (s.ownedBy r.ownerId) s.hot
    have hmem : e ∈ s.hot.filter fun e => !s.ownedBy r.ownerId e :=
      List.mem_filter.mpr ⟨he, by rw [hnot]; rfl⟩
    rw [← hfilter] at hmem
    exact (List.mem_filter.mp hmem).1
  · -- one more than there was room for
    have hold : (hotErase r.sessionId (makeRoomFor cfg.maxSize (s.ownedBy r.ownerId) s.hot)).Sublist
        (makeRoomFor cfg.maxSize (s.ownedBy r.ownerId) s.hot) := List.filter_sublist
    have hcount : StoreState.sessionsForOwner { s.register cfg.maxSize r with ops := ops } r.ownerId ≤
        (makeRoomFor cfg.maxSize (s.ownedBy r.ownerId) s.hot).countP (s.ownedBy r.ownerId) + 1 := by
      refine ((hperm.countP_eq _).trans List.countP_cons).trans_le (Nat.add_le_add ?_ ?_)
      · refine (List.countP_congr fun e he => ?_).trans_le hold.countP_le
        exact iff_of_eq (congrArg (· = true) (ownedBy_append htyped (hsub.subset (hold.subset he)) rfl))
      · split <;> omega
    rcases hroom with ⟨hlt, -⟩ | hnone
    · omega
    · -- the owner gave up everything, and has the new session
      have hzero : (makeRoomFor cfg.maxSize (s.ownedBy r.ownerId) s.hot).countP (s.ownedBy r.ownerId) = 0 := by
        rw [List.countP_eq_zero]
        simpa using hnone
      omega

/-- A creation and a rehydration are admissions. -/
theorem admittedAlone_of_step {l : StoreLabel} (htyped : StoreTyped s) (h : OwnerInv s)
    (hadmits : Admits s l sid ownerId) (hstep : storeStep cfg s l = some s') :
    AdmittedAlone cfg s s' sid ownerId := by
  cases hadmits with
  | create sid ownerId =>
    simp only [storeStep] at hstep
    split at hstep
    · rename_i hfresh
      cases hstep
      refine admittedAlone_register (r := ⟨sid, s.clock, s.clock, [], [], ownerId, none⟩) htyped h rfl ?_
      -- no live session has the new id
      rintro e he rfl
      obtain ⟨r, hr, hsid⟩ := htyped.hot e he
      obtain ⟨op, hop, -, hname, -⟩ := h.heap r (List.mem_of_getElem? hr)
      exact absurd (hname.trans hsid) (hfresh op hop)
    · cases hstep
  | @rehydrate c op now row turns memory hop hphase =>
    simp only [storeStep, hop] at hstep
    split at hstep
    · rename_i kind sid principal now' row' turns' memory' heq
      obtain rfl := Option.some.inj heq
      cases hphase
      cases hstep
      refine admittedAlone_register (r := StoreState.rebuilt sid now row turns memory) htyped h rfl ?_
      rintro e - rfl
      exact h.loaded _ (List.mem_of_getElem? hop) row rfl
    · cases hstep

/-! ## Runs -/

theorem ownerInv_of_run {labels : List StoreLabel} (h : run (storeStep cfg) .init labels = some s) :
    StoreTyped s ∧ OwnerInv s := by
  refine (run_eq_some_iff.mp h).invariant (I := fun s => StoreTyped s ∧ OwnerInv s)
    ⟨storeTyped_init, ownerInv_init⟩ ?_
  intro s l s' hI _ hstep
  have hmove := storeMove_of_step hstep
  exact ⟨storeTyped_move hI.1 hmove, ownerInv_move hI.1 hI.2 hmove⟩

/-- What a call is handed is its session's. -/
theorem sessionId_of_handedTo (htyped : StoreTyped s) (hop : op ∈ s.ops) {r : SessionRecord}
    (hr : s.handedTo op = some r) : r.sessionId = op.sessionId ∧
      (op.pastCheck = true ∨ ∃ obj : Nat, s.heap[obj]? = some r ∧ StoreState.owns op.principal r = true) := by
  have hsid : ∀ obj : Nat, op.phase.obj = some obj → s.heap[obj]? = some r → r.sessionId = op.sessionId := by
    intro obj hobj hget
    obtain ⟨r', hr', hsid⟩ := htyped.ops op hop obj hobj
    rw [hget, Option.some.injEq] at hr'
    rw [hr', hsid]
  unfold StoreState.handedTo at hr
  unfold StoreOp.pastCheck
  cases hphase : op.phase <;> rw [hphase] at hr hsid <;> first | cases hr | skip
  case found obj =>
    -- before the check: handed on to an owner only
    obtain ⟨hget, howns⟩ := Option.filter_eq_some_iff.mp hr
    exact ⟨hsid obj rfl hget, .inr ⟨obj, hget, howns⟩⟩
  all_goals exact ⟨hsid _ rfl hr, .inl rfl⟩

/-- **Owners are isolated** in every run. -/
theorem ownersIsolated_of_run {labels : List StoreLabel} (h : run (storeStep cfg) .init labels = some s) :
    OwnersIsolated cfg s := by
  obtain ⟨htyped, hinv⟩ := ownerInv_of_run h
  constructor
  · exact fun l s' sid ownerId hadmits hstep => admittedAlone_of_step htyped hinv hadmits hstep
  · intro op hop r hr ownerId hcreated
    obtain ⟨hsid, hpast | ⟨obj, hget, howns⟩⟩ := sessionId_of_handedTo htyped hop hr
    · rw [hsid] at hcreated
      exact hinv.checked op hop hpast ownerId hcreated
    · exact hinv.of_owns hget howns hcreated
  · intro op hop hphase ownerId hcreated
    exact hinv.checked op hop (by rw [StoreOp.pastCheck, hphase]) ownerId hcreated
  · intro principal recent row hrow ownerId hcreated
    obtain ⟨hmem, hsel⟩ := List.mem_filter.mp hrow
    obtain rfl := hinv.once _ _ _ hcreated (hinv.rows row hmem)
    simp only [Option.getD_some, Bool.and_eq_true, Bool.or_eq_true, decide_eq_true_iff] at hsel
    exact hsel.1.symm

end Owners

/-! ## Limits -/

/-- One session at once: the first session of an owner makes room for the second, and another owner's
stays. -/
theorem ownersIsolated_evicted :
    ∃ s, run (storeStep ⟨1800, 1, 60⟩) .init [.create "s1" (some "ann"), .create "s2" (some "bob"),
        .create "s3" (some "ann")] = some s ∧
      s.hot.map (·.1) = ["s2", "s3"] ∧ OwnersIsolated ⟨1800, 1, 60⟩ s :=
  have hrun : run (storeStep ⟨1800, 1, 60⟩) .init [.create "s1" (some "ann"), .create "s2" (some "bob"),
      .create "s3" (some "ann")] = some _ := rfl
  ⟨_, hrun, by decide, ownersIsolated_of_run hrun⟩

/-- **No session at once**: the new session is kept, and its owner has one too many. -/
theorem create_exceeds_zero :
    ∃ s, storeStep ⟨1800, 0, 60⟩ .init (.create "s1" (some "ann")) = some s ∧
      Admits .init (.create "s1" (some "ann")) "s1" (some "ann") ∧ ¬ s.sessionsForOwner (some "ann") ≤ 0 :=
  ⟨_, rfl, .create _ _, by decide⟩

end LocalSqlAgent
