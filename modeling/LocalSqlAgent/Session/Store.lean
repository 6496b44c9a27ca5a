import Mathlib.Data.List.Sort
import LocalSqlAgent.Lib.PyText

/-! # The session store

`session.store` with its `session.persistence` backend attached: an `OrderedDict` of live sessions,
oldest first, over two tables. A live session is an object: a call that looked it up keeps it while
the dictionary moves on, so objects live in a heap here and the dictionary maps a session id to an
object.

Each definition is one section under the store's lock or one transaction of the backend; `get` is the
whole lookup, run without interruption. The interleaved system is in `Session.StoreRuns`. -/

namespace LocalSqlAgent

/-! ## Turns -/

/-- `TurnResult`. -/
structure TurnResult where
  /-- Column names and types. -/
  columns : List (String × String)
  /-- The rows, each a column's name and value. -/
  rows : List (List (String × String))
  /-- `row_count`. -/
  rowCount : Nat
  /-- `truncated`. -/
  truncated : Bool
  /-- `rows_omitted`. -/
  rowsOmitted : Bool
  deriving DecidableEq, Repr

/-- `Turn`: the fields the store reads, and those a follow-up is built from. -/
structure Turn where
  /-- `turn_id`. -/
  turnId : String
  /-- `session_id`. -/
  sessionId : String
  /-- `index`, from 1. -/
  index : Nat
  /-- `question`. -/
  question : String
  /-- `sql`. -/
  sql : Option String
  /-- `result`. -/
  result : Option TurnResult
  deriving DecidableEq, Repr

namespace Turn

/-- What `save_turn` writes: the turn without its result rows. -/
def stored (t : Turn) : Turn := { t with result := t.result.map fun r => { r with rows := [] } }

/-- What `load_turns` makes of a stored turn. -/
def reloaded (t : Turn) : Turn :=
  { t with result := t.result.map fun r => { r with rows := [], rowsOmitted := true } }

@[simp] theorem reloaded_stored (t : Turn) : t.stored.reloaded = t.reloaded := by
  cases t with
  | mk _ _ _ _ _ result => cases result <;> rfl

@[simp] theorem reloaded_reloaded (t : Turn) : t.reloaded.reloaded = t.reloaded := by
  cases t with
  | mk _ _ _ _ _ result => cases result <;> rfl

@[simp] theorem reloaded_index (t : Turn) : t.reloaded.index = t.index := rfl

@[simp] theorem reloaded_turnId (t : Turn) : t.reloaded.turnId = t.turnId := rfl

@[simp] theorem stored_index (t : Turn) : t.stored.index = t.index := rfl

@[simp] theorem stored_turnId (t : Turn) : t.stored.turnId = t.turnId := rfl

end Turn

/-- `TurnMemory`. -/
structure TurnMemory where
  /-- `turn_id`. -/
  turnId : String
  /-- `filters`. -/
  filters : List (String × String)
  /-- `result_columns`. -/
  resultColumns : List String
  /-- `sql`. -/
  sql : Option String
  /-- `injected_top`. -/
  injectedTop : Option Nat
  /-- `row_count`. -/
  rowCount : Nat
  /-- `datasource`. -/
  datasource : Option String
  deriving DecidableEq, Repr

/-- The payload `save_turn` writes for a turn without memory. -/
def TurnMemory.blank (turnId : String) : TurnMemory := ⟨turnId, [], [], none, none, 0, none⟩

/-! ## Records and rows -/

/-- `SessionRecord`: a live session. -/
structure SessionRecord where
  /-- `session_id`. -/
  sessionId : String
  /-- `created_at`. -/
  createdAt : Int
  /-- `last_active`. -/
  lastActive : Int
  /-- `turns`. -/
  turns : List Turn
  /-- `memory`. -/
  memory : List (String × TurnMemory)
  /-- `owner_id`. -/
  ownerId : Option String
  /-- `title`. -/
  title : Option String
  deriving DecidableEq, Repr

/-- `record.memory.get(turn_id)`. -/
def SessionRecord.memoryFor (r : SessionRecord) (turnId : String) : Option TurnMemory :=
  (r.memory.find? fun e => e.1 = turnId).map (·.2)

/-- A row of `sessions`. -/
structure SessionRow where
  /-- The primary key. -/
  sessionId : String
  /-- `owner_id`. -/
  ownerId : Option String
  /-- `title`. -/
  title : Option String
  /-- `created_at`. -/
  createdAt : Int
  deriving DecidableEq, Repr

/-- A row of `turns`; the `turn_id` and `turn_index` columns are the turn's own. -/
structure TurnRow where
  /-- `session_id`. -/
  sessionId : String
  /-- `turn_json`. -/
  turn : Turn
  /-- `memory_json`. -/
  memory : TurnMemory
  deriving DecidableEq, Repr

/-- The two tables. -/
structure SessionTables where
  /-- `sessions`. -/
  sessions : List SessionRow
  /-- `turns`. -/
  turns : List TurnRow
  deriving DecidableEq, Repr

namespace SessionTables

variable (db : SessionTables)

/-- `upsert_session`: `created_at` is never overwritten. -/
def upsertSession (row : SessionRow) : SessionTables :=
  if db.sessions.any fun r => r.sessionId = row.sessionId then
    { db with sessions := db.sessions.map fun r =>
        if r.sessionId = row.sessionId then { row with createdAt := r.createdAt } else r }
  else { db with sessions := db.sessions ++ [row] }

/-- `load_session_row`. -/
def loadSessionRow (sessionId : String) : Option SessionRow :=
  db.sessions.find? fun r => r.sessionId = sessionId

/-- `save_turn`: an upsert on session id and turn id. -/
def saveTurn (sessionId : String) (turn : Turn) (memory : Option TurnMemory) : SessionTables :=
  let row : TurnRow := ⟨sessionId, turn.stored, memory.getD (.blank turn.turnId)⟩
  { db with turns := (db.turns.filter fun r =>
      ¬ (r.sessionId = sessionId ∧ r.turn.turnId = turn.turnId)) ++ [row] }

/-- The stored turns of a session, `ORDER BY turn_index`. -/
def turnRows (sessionId : String) : List TurnRow :=
  (db.turns.filter fun r => r.sessionId = sessionId).insertionSort
    fun r r' => r.turn.index ≤ r'.turn.index

/-- `load_turns`: the turns. -/
def loadTurns (sessionId : String) : List Turn :=
  (db.turnRows sessionId).map fun r => r.turn.reloaded

/-- `load_turns`: their memory. -/
def loadMemory (sessionId : String) : List (String × TurnMemory) :=
  (db.turnRows sessionId).map fun r => (r.turn.turnId, { r.memory with turnId := r.turn.turnId })

/-- `delete_session`, one transaction. -/
def deleteSession (sessionId : String) : SessionTables where
  sessions := db.sessions.filter fun r => r.sessionId ≠ sessionId
  turns := db.turns.filter fun r => r.sessionId ≠ sessionId

/-- The session has a row. -/
def HasSession (sessionId : String) : Prop := ∃ r ∈ db.sessions, r.sessionId = sessionId

/-- The session has a stored turn. -/
def HasTurns (sessionId : String) : Prop := ∃ r ∈ db.turns, r.sessionId = sessionId

end SessionTables

/-! ## The tables' operations -/

section Tables

variable {db : SessionTables} {sid : String}

theorem loadSessionRow_eq_none_iff : db.loadSessionRow sid = none ↔ ¬ db.HasSession sid := by
  simp [SessionTables.loadSessionRow, SessionTables.HasSession]

theorem hasSession_of_loadSessionRow {row : SessionRow} (h : db.loadSessionRow sid = some row) :
    db.HasSession sid :=
  ⟨row, List.mem_of_find?_eq_some h, by simpa using List.find?_some h⟩

theorem loadTurns_eq_nil_iff : db.loadTurns sid = [] ↔ ¬ db.HasTurns sid := by
  have hlen : (db.loadTurns sid).length =
      (db.turns.filter fun r => r.sessionId = sid).length := by
    rw [SessionTables.loadTurns, SessionTables.turnRows, List.length_map, List.length_insertionSort]
  rw [← List.length_eq_zero_iff, hlen, List.length_eq_zero_iff]
  simp [SessionTables.HasTurns]

/-- An upsert leaves exactly one more session with a row. -/
theorem hasSession_upsertSession {row : SessionRow} :
    (db.upsertSession row).HasSession sid ↔ db.HasSession sid ∨ sid = row.sessionId := by
  rw [SessionTables.upsertSession]
  split
  · rename_i hany
    obtain ⟨r₀, hr₀, hkey⟩ := List.any_eq_true.mp hany
    have hkey : r₀.sessionId = row.sessionId := by simpa using hkey
    constructor
    · rintro ⟨r, hr, hsid⟩
      obtain ⟨r', hr', rfl⟩ := List.mem_map.mp hr
      by_cases hsame : r'.sessionId = row.sessionId
      · rw [if_pos hsame] at hsid
        exact .inr hsid.symm
      · rw [if_neg hsame] at hsid
        exact .inl ⟨r', hr', hsid⟩
    · intro h
      have hold : db.HasSession sid := by
        rcases h with h | rfl
        · exact h
        · exact ⟨r₀, hr₀, hkey⟩
      obtain ⟨r, hr, hsid⟩ := hold
      refine ⟨_, List.mem_map.mpr ⟨r, hr, rfl⟩, ?_⟩
      split
      · rename_i hsame
        rw [← hsid, hsame]
      · exact hsid
  · constructor
    · rintro ⟨r, hr, hsid⟩
      rcases List.mem_append.mp hr with hold | hnew
      · exact .inl ⟨r, hold, hsid⟩
      · rw [List.mem_singleton] at hnew
        exact .inr (hnew ▸ hsid.symm)
    · rintro (⟨r, hr, hsid⟩ | rfl)
      · exact ⟨r, List.mem_append_left _ hr, hsid⟩
      · exact ⟨row, List.mem_append_right _ (List.mem_singleton_self row), rfl⟩

@[simp] theorem upsertSession_turns {row : SessionRow} :
    (db.upsertSession row).turns = db.turns := by
  rw [SessionTables.upsertSession]
  split <;> rfl

theorem hasSession_deleteSession {sid' : String} :
    (db.deleteSession sid').HasSession sid ↔ db.HasSession sid ∧ sid ≠ sid' := by
  constructor
  · rintro ⟨r, hr, rfl⟩
    obtain ⟨hmem, hne⟩ := List.mem_filter.mp hr
    exact ⟨⟨r, hmem, rfl⟩, by simpa using hne⟩
  · rintro ⟨⟨r, hr, rfl⟩, hne⟩
    exact ⟨r, List.mem_filter.mpr ⟨hr, by simpa using hne⟩, rfl⟩

end Tables

/-! ## The live sessions -/

/-- An entry of `_sessions`: a session id and its object. -/
abbrev HotEntry : Type := String × Nat

/-- `_sessions[session_id] = record`: a present key keeps its place. -/
def hotSet (sessionId : String) (obj : Nat) (hot : List HotEntry) : List HotEntry :=
  if hot.any fun e => e.1 = sessionId then
    hot.map fun e => if e.1 = sessionId then (sessionId, obj) else e
  else hot ++ [(sessionId, obj)]

/-- `del _sessions[session_id]`. -/
def hotErase (sessionId : String) (hot : List HotEntry) : List HotEntry :=
  hot.filter fun e => e.1 ≠ sessionId

/-- `_sessions.get(session_id)`. -/
def hotGet (sessionId : String) (hot : List HotEntry) : Option Nat :=
  (hot.find? fun e => e.1 = sessionId).map (·.2)

/-- The loop of `_make_room_for`: while the owner or the store is full, drop the owner's own oldest
session, and stop when it has none left. The first argument bounds the rounds. -/
def makeRoomLoop (maxSize : Nat) (owned : HotEntry → Bool) : Nat → List HotEntry → List HotEntry
  | 0, hot => hot
  | rounds + 1, hot =>
    if maxSize ≤ hot.countP owned ∨ maxSize ≤ hot.length then
      if hot.any owned then makeRoomLoop maxSize owned rounds (hot.eraseP owned) else hot
    else hot

/-- `_make_room_for`: each round drops an entry, so there are at most as many as entries. -/
def makeRoomFor (maxSize : Nat) (owned : HotEntry → Bool) (hot : List HotEntry) : List HotEntry :=
  makeRoomLoop maxSize owned hot.length hot

theorem mem_hotSet {sid : String} {obj : Nat} {hot : List HotEntry} {e : HotEntry}
    (h : e ∈ hotSet sid obj hot) : e = (sid, obj) ∨ (e ∈ hot ∧ e.1 ≠ sid) := by
  rw [hotSet] at h
  split at h
  · obtain ⟨e', he', rfl⟩ := List.mem_map.mp h
    by_cases hkey : e'.1 = sid
    · rw [if_pos hkey]
      exact .inl rfl
    · rw [if_neg hkey]
      exact .inr ⟨he', hkey⟩
  · rename_i hany
    rcases List.mem_append.mp h with hold | hnew
    · refine .inr ⟨hold, fun hkey => hany ?_⟩
      exact List.any_eq_true.mpr ⟨e, hold, by simpa using hkey⟩
    · exact .inl (List.mem_singleton.mp hnew)

theorem mem_hotSet_self {sid : String} {obj : Nat} {hot : List HotEntry} : (sid, obj) ∈ hotSet sid obj hot := by
  rw [hotSet]
  split
  · rename_i hany
    obtain ⟨e, he, hkey⟩ := List.any_eq_true.mp hany
    exact List.mem_map.mpr ⟨e, he, if_pos (of_decide_eq_true hkey)⟩
  · exact List.mem_append_right _ (List.mem_singleton_self _)

theorem mem_hotErase {sid : String} {hot : List HotEntry} {e : HotEntry} :
    e ∈ hotErase sid hot ↔ e ∈ hot ∧ e.1 ≠ sid := by
  rw [hotErase, List.mem_filter, decide_eq_true_iff]

theorem mem_of_hotGet {sid : String} {hot : List HotEntry} {obj : Nat}
    (h : hotGet sid hot = some obj) : (sid, obj) ∈ hot := by
  obtain ⟨e, he, rfl⟩ := Option.map_eq_some_iff.mp h
  have hkey : e.1 = sid := by simpa using List.find?_some he
  rw [← hkey]
  exact List.mem_of_find?_eq_some he

theorem makeRoomLoop_sublist {maxSize : Nat} {owned : HotEntry → Bool} (rounds : Nat)
    (hot : List HotEntry) : (makeRoomLoop maxSize owned rounds hot).Sublist hot := by
  induction rounds generalizing hot with
  | zero => exact List.Sublist.refl hot
  | succ rounds ih =>
    rw [makeRoomLoop]
    split
    · split
      · exact (ih _).trans List.eraseP_sublist
      · exact List.Sublist.refl hot
    · exact List.Sublist.refl hot

theorem makeRoomFor_sublist {maxSize : Nat} {owned : HotEntry → Bool} (hot : List HotEntry) :
    (makeRoomFor maxSize owned hot).Sublist hot := makeRoomLoop_sublist _ hot

theorem filter_not_eraseP {p : HotEntry → Bool} (l : List HotEntry) :
    (l.eraseP p).filter (fun e => !p e) = l.filter fun e => !p e := by
  induction l with
  | nil => rfl
  | cons e rest ih =>
    by_cases he : p e = true
    · rw [List.eraseP_cons_of_pos he, List.filter_cons_of_neg (by simp [he])]
    · rw [List.eraseP_cons_of_neg he, List.filter_cons_of_pos (by simp [he]), ih,
        List.filter_cons_of_pos (by simp [he])]

/-- **Only the owner's own sessions are evicted.** -/
theorem makeRoomFor_filter_not_owned {maxSize : Nat} {owned : HotEntry → Bool}
    (hot : List HotEntry) :
    (makeRoomFor maxSize owned hot).filter (fun e => !owned e) =
      hot.filter fun e => !owned e := by
  suffices hloop : ∀ (rounds : Nat) (hot : List HotEntry),
      (makeRoomLoop maxSize owned rounds hot).filter (fun e => !owned e) =
        hot.filter fun e => !owned e from hloop _ hot
  intro rounds
  induction rounds with
  | zero => exact fun _ => rfl
  | succ rounds ih =>
    intro hot
    rw [makeRoomLoop]
    split
    · split
      · rw [ih, filter_not_eraseP]
      · rfl
    · rfl

/-- **The loop ends with room or with nothing of the owner's left.** -/
theorem makeRoomFor_room {maxSize : Nat} {owned : HotEntry → Bool} (hot : List HotEntry) :
    let hot' := makeRoomFor maxSize owned hot
    (hot'.countP owned < maxSize ∧ hot'.length < maxSize) ∨ hot'.any owned = false := by
  suffices hloop : ∀ (rounds : Nat) (hot : List HotEntry), hot.length ≤ rounds →
      let hot' := makeRoomLoop maxSize owned rounds hot
      (hot'.countP owned < maxSize ∧ hot'.length < maxSize) ∨ hot'.any owned = false from
    hloop _ hot (Nat.le_refl _)
  intro rounds
  induction rounds with
  | zero =>
    intro hot hlen
    obtain rfl := List.length_eq_zero_iff.mp (Nat.le_zero.mp hlen)
    exact .inr rfl
  | succ rounds ih =>
    intro hot hlen
    rw [makeRoomLoop]
    split
    · split
      · rename_i hany
        obtain ⟨e, he, hown⟩ := List.any_eq_true.mp hany
        refine ih _ ?_
        rw [List.length_eraseP_of_mem he hown]
        omega
      · rename_i hnone
        exact .inr (by simpa using hnone)
    · rename_i hroom
      rw [not_or, not_le, not_le] at hroom
      exact .inl hroom

end LocalSqlAgent
