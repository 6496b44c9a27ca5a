import Mathlib.Data.List.Infix
import Mathlib.Data.List.Sort
import LocalSqlAgent.Database.Routing
import LocalSqlAgent.Session.SavedTurn

/-! # Rehydration

A session whose record leaves memory and is rebuilt from the saved turns, next to the same session with
no demotion: what `ask` reads of the record before it answers the next question. A request holds its
record, so a demotion while it runs is a demotion after it.

* **`SameNext`**: the two records give the next question the same basis decision with the same inherited
  filters, the same session context, previous statement and previous source.
* **`converse`**: the session after a list of turns and demotions.
* **`Storable`**: a turn whose cells pydantic can write, with filters JSON holds.
* **`rehydrationInvisible_iff`**: demotions show nowhere exactly when every turn is storable. -/

namespace LocalSqlAgent

/-! ## The basis of a question -/

/-- `CTE_REFINEMENT_CUES`. -/
def cteRefinementCues : List String :=
  ["از بین آن‌ها", "از بین آنها", "از بین اونا", "از بین این‌ها", "از بین اینا",
    "از میان آن‌ها", "از میان آنها", "از میان این‌ها", "در بین آن‌ها", "در بین این‌ها",
    "در میان آن‌ها", "among those", "among these", "of those", "from those",
    "out of those"]

/-- `CARRY_FORWARD_CUES`. -/
def carryForwardCues : List String :=
  ["همین را", "همین رو", "همین‌طور", "همینو", "همون سوال",
    "همان سوال", "همون رو", "همان‌طور", "به همین ترتیب", "دوباره",
    "همون", "same for", "same as before", "same query", "same question",
    "again"]

/-- `_RELATIVE_PERIOD_DELTAS`. -/
def relativePeriodDeltas : List (String × Int) :=
  [("سال قبل", -1), ("سال گذشته", -1), ("پارسال", -1), ("سال آینده", 1), ("سال بعد", 1)]

/-- `needle in haystack`. -/
def occursIn (needle haystack : String) : Bool := needle.toList <:+: haystack.toList

/-- `_contains_any`. -/
def containsAny (question : String) (cues : List String) : Bool := cues.any fun cue => occursIn cue question

/-- `relative_period_delta`: the first phrase found. -/
def relativePeriodDelta (question : String) : Int :=
  ((relativePeriodDeltas.find? fun e => occursIn e.1 question).map (·.2)).getD 0

/-- `basis.kind`. -/
inductive BasisKind where
  | fresh
  | refines
  deriving DecidableEq, Repr

/-- `basis.composition`. -/
inductive BasisComposition where
  | cte
  | none
  deriving DecidableEq, Repr

/-- `BasisDecision`. -/
structure BasisDecision where
  /-- `kind`. -/
  kind : BasisKind
  /-- `refines_turn_id`. -/
  refinesTurnId : Option String
  /-- `composition`. -/
  composition : BasisComposition
  /-- `inherited_filters`. -/
  inheritedFilters : OrderedDict String PyValue := ∅
  /-- `period_delta`. -/
  periodDelta : Int := 0

/-- **`classify_basis`**. -/
def classifyBasis (question : String) (previousTurn : Option AskedTurn) (previousMemory : Option AskedMemory) :
    BasisDecision :=
  match previousTurn with
  | none => { kind := .fresh, refinesTurnId := none, composition := .none }
  | some turn =>
    let filters := previousMemory.elim ∅ fun m => m.filters
    if containsAny question cteRefinementCues then
      { kind := .refines, refinesTurnId := some turn.turnId, composition := .cte, inheritedFilters := filters }
    else if containsAny question carryForwardCues then
      { kind := .refines, refinesTurnId := some turn.turnId, composition := .none, inheritedFilters := filters,
        periodDelta := relativePeriodDelta question }
    else { kind := .fresh, refinesTurnId := none, composition := .none }

/-! ## The rest of what `ask` reads -/

/-- `s or None`: a string that is not empty. -/
def orNothing (s : Option String) : Option String := s.filter (· ≠ "")

/-- One block of the session context. -/
def turnBlock (t : AskedTurn) : String :=
  let columns := t.result.elim "(none)" fun r => joinStrings ", " (r.columns.map (·.1))
  let rowCount : Int := t.result.elim 0 (·.rowCount)
  "turn " ++ t.turnId ++ ":\n  question: " ++ t.question ++ "\n  SQL: " ++ (orNothing t.sql).getD "(none)" ++
    "\n  result columns: " ++ columns ++ "\n  row_count: " ++ toString rowCount

/-- **`build_session_context_text`**. -/
def buildSessionContextText (turns : List AskedTurn) (maxTurns : Int) : String :=
  if turns = [] ∨ maxTurns ≤ 0 then ""
  else joinStrings "\n\n" ((turns.drop (turns.length - maxTurns.toNat)).map turnBlock)

/-- `SessionRecord`, as far as it is rebuilt. -/
structure AskRecord where
  /-- `turns`. -/
  turns : List AskedTurn
  /-- `memory`. -/
  memory : OrderedDict String AskedMemory

namespace AskRecord

variable (r : AskRecord)

/-- `last_turn`. -/
def lastTurn : Option AskedTurn := r.turns.getLast?

/-- `memory_for`. -/
def memoryFor (turnId : Option String) : Option AskedMemory := (orNothing turnId).bind fun k => r.memory.lookup k

/-- `previous_memory`. -/
def previousMemory : Option AskedMemory := r.memoryFor (r.lastTurn.map (·.turnId))

/-- The last lines of `ask`. -/
def append (t : AskedTurn) (m : AskedMemory) : AskRecord := ⟨r.turns ++ [t], r.memory.assign t.turnId m⟩

/-- `basis_decision`. -/
def basis (question : String) : BasisDecision := classifyBasis question r.lastTurn r.previousMemory

/-- The statement a refinement composes over. -/
def previousSql : Option String := r.lastTurn.bind (·.sql)

/-- **`_previous_turn_source`**, with the source a statement routes to. -/
def previousSource (sources : List String) (route : String → Option String) : Option String :=
  (orNothing r.previousSql).bind fun sql =>
    if sources.length < 2 then none
    else (r.previousMemory.bind fun m => orNothing m.datasource).orElse fun _ => route sql

end AskRecord

/-- **The next question cannot tell the records apart.** -/
structure SameNext (r r' : AskRecord) : Prop where
  /-- The basis decision, inherited filters included. -/
  basis : ∀ question, r.basis question = r'.basis question
  /-- The session context, however many turns it shows. -/
  context : ∀ maxTurns, buildSessionContextText r.turns maxTurns = buildSessionContextText r'.turns maxTurns
  /-- The previous statement. -/
  sql : r.previousSql = r'.previousSql
  /-- The previous source, under any configuration. -/
  source : ∀ sources route, r.previousSource sources route = r'.previousSource sources route

/-! ## The session -/

/-- The record of turns with their memory, in order. -/
def recordOf (entries : List (AskedTurn × AskedMemory)) : AskRecord :=
  ⟨entries.map (·.1), .ofPairs (entries.map fun e => (e.1.turnId, e.2))⟩

/-- The upsert of `save_turn`, on the turn id. -/
def upsertTurn (row : StoredTurn) (rows : List StoredTurn) : List StoredTurn :=
  if rows.any fun r => r.turnId = row.turnId then rows.map fun r => if r.turnId = row.turnId then row else r
  else rows ++ [row]

/-- **`load_turns`**, `ORDER BY turn_index`. -/
def loadRecord (rows : List StoredTurn) : Option AskRecord := do
  let entries ← (rows.insertionSort fun r r' => r.turnIndex ≤ r'.turnIndex).mapM fun row => do
    let turn ← loadedTurn row.turnJson
    let memory ← loadedMemory row.memoryJson
    return (turn, memory)
  return recordOf entries

/-- A session and its stored turns. -/
structure Conversation where
  /-- The record in memory, unless it was demoted. -/
  hot : Option AskRecord
  /-- Its rows of `turns`. -/
  stored : List StoredTurn
  /-- A save has raised. -/
  refused : Bool

/-- What happens to a session. -/
inductive ConversationEvent where
  /-- A turn is asked and saved; its index is not chosen yet. -/
  | turn (t : AskedTurn) (m : AskedMemory)
  /-- The record leaves memory: it expired, or another session took its place. -/
  | demote

namespace Conversation

/-- **`get`**: the record in memory, or the one rebuilt from the stored turns. -/
def current (s : Conversation) : Option AskRecord := s.hot.orElse fun _ => loadRecord s.stored

/-- **One event**: `ask` appends to the record, `sync_turn` saves the turn with the memory the record has. -/
def step (s : Conversation) : ConversationEvent → Conversation
  | .demote => { s with hot := none }
  | .turn t m =>
    match s.current with
    | none => s
    | some r =>
      let turn := { t with index := r.turns.length + 1 }
      let r := r.append turn m
      match savedRow turn (r.memory.lookup turn.turnId) with
      | some row => { s with hot := some r, stored := upsertTurn row s.stored }
      | none => { s with hot := some r, refused := true }

end Conversation

/-- **The session after some events**, from its creation. -/
def converse (events : List ConversationEvent) : Conversation :=
  events.foldl Conversation.step ⟨some (recordOf []), [], false⟩

/-- The turns among the events. -/
def turnsOf (events : List ConversationEvent) : List (AskedTurn × AskedMemory) :=
  events.filterMap fun
    | .turn t m => some (t, m)
    | .demote => none

/-- The turns alone. -/
def undemoted (turns : List (AskedTurn × AskedMemory)) : List ConversationEvent :=
  turns.map fun e => .turn e.1 e.2

/-- **Rehydration is invisible** in a session with these turns, wherever its record is demoted. -/
structure RehydrationInvisible (turns : List (AskedTurn × AskedMemory)) : Prop where
  /-- Saving each turn succeeds. -/
  saved : ∀ events, turnsOf events <+: turns → (converse events).refused = false
  /-- The next question finds the same in the rebuilt record as in one that was never demoted. -/
  next : ∀ events, turnsOf events <+: turns → ∃ r r', (converse events).current = some r ∧
    (converse (undemoted (turnsOf events))).current = some r' ∧ SameNext r r'
  /-- Result rows do not change what is stored. -/
  payload : ∀ e ∈ turns, ∀ rows row row', savedRow e.1 (some e.2) = some row →
    savedRow (e.1.withRows rows) (some e.2) = some row' → row = row'

/-- **A turn that survives**: pydantic has a JSON form for every cell and for the model's status, and JSON
holds the filters. -/
structure Storable (e : AskedTurn × AskedMemory) : Prop where
  /-- Cells are dumped before they are dropped. -/
  cells : e.1.CellsEncodable
  /-- So is the status. -/
  status : e.1.StatusEncodable
  /-- Filters come back as they were. -/
  filters : ∀ f ∈ e.2.filters.entries, IsJson f.2

/-- The ids `ask` mints: distinct, and not empty. -/
structure FreshIds (turns : List (AskedTurn × AskedMemory)) : Prop where
  /-- No two turns share one. -/
  nodup : (turns.map fun e => e.1.turnId).Nodup
  /-- They start with `t_`. -/
  nonempty : ∀ e ∈ turns, e.1.turnId ≠ ""

/-! ## What the next question reads -/

/-- What a later question can read of a turn and its memory. -/
def entryView (e : AskedTurn × AskedMemory) : AskedTurn × AskedMemory := (e.1.outline, e.2)

section View

variable {entries entries' : List (AskedTurn × AskedMemory)} {t : AskedTurn} {m : AskedMemory}

theorem turnBlock_outline (t : AskedTurn) : turnBlock t.outline = turnBlock t := by
  unfold turnBlock AskedTurn.outline
  cases t.result <;> rfl

theorem classifyBasis_outline (question : String) (previous : Option AskedTurn) (memory : Option AskedMemory) :
    classifyBasis question (previous.map AskedTurn.outline) memory = classifyBasis question previous memory := by
  cases previous <;> rfl

theorem map_turnBlock_congr {turns turns' : List AskedTurn}
    (h : turns.map AskedTurn.outline = turns'.map AskedTurn.outline) : turns.map turnBlock = turns'.map turnBlock := by
  have hblock : ∀ turns : List AskedTurn, turns.map turnBlock = (turns.map AskedTurn.outline).map turnBlock := by
    intro turns
    rw [List.map_map]
    exact List.map_congr_left fun t _ => (turnBlock_outline t).symm
  rw [hblock turns, hblock turns', h]

theorem buildSessionContextText_congr {turns turns' : List AskedTurn}
    (h : turns.map AskedTurn.outline = turns'.map AskedTurn.outline) (maxTurns : Int) :
    buildSessionContextText turns maxTurns = buildSessionContextText turns' maxTurns := by
  have hlen : turns.length = turns'.length := by simpa using congrArg List.length h
  have hnil : turns = [] ↔ turns' = [] := by
    rw [← List.length_eq_zero_iff, hlen, List.length_eq_zero_iff]
  have hblocks := map_turnBlock_congr h
  unfold buildSessionContextText
  rw [List.map_drop, List.map_drop, hblocks, hlen]
  simp only [hnil]

theorem recordOf_memory_congr (h : entries.map entryView = entries'.map entryView) :
    (recordOf entries).memory = (recordOf entries').memory := by
  have hpairs : ∀ l : List (AskedTurn × AskedMemory),
      l.map (fun e => (e.1.turnId, e.2)) = (l.map entryView).map fun e => (e.1.turnId, e.2) := by
    intro l
    rw [List.map_map]
    rfl
  rw [recordOf, recordOf, hpairs entries, hpairs entries', h]

/-- **Records with the same outlines and memory** are alike to the next question. -/
theorem sameNext_of_entryView (h : entries.map entryView = entries'.map entryView) :
    SameNext (recordOf entries) (recordOf entries') := by
  have houtlines : (recordOf entries).turns.map AskedTurn.outline = (recordOf entries').turns.map AskedTurn.outline := by
    have hfst := congrArg (List.map Prod.fst) h
    rw [List.map_map, List.map_map] at hfst
    rw [recordOf, recordOf, List.map_map, List.map_map]
    exact hfst
  have hmemory := recordOf_memory_congr h
  generalize recordOf entries = r at houtlines hmemory ⊢
  generalize recordOf entries' = r' at houtlines hmemory ⊢
  have hlast : r.lastTurn.map AskedTurn.outline = r'.lastTurn.map AskedTurn.outline := by
    rw [AskRecord.lastTurn, AskRecord.lastTurn, ← List.getLast?_map, ← List.getLast?_map, houtlines]
  have hid : r.lastTurn.map (·.turnId) = r'.lastTurn.map (·.turnId) := by
    have := congrArg (Option.map AskedTurn.turnId) hlast
    rw [Option.map_map, Option.map_map] at this
    exact this
  have hprevious : r.previousMemory = r'.previousMemory := by
    rw [AskRecord.previousMemory, AskRecord.previousMemory, hid, AskRecord.memoryFor, AskRecord.memoryFor, hmemory]
  have hsql : r.previousSql = r'.previousSql := by
    have := congrArg (Option.bind · AskedTurn.sql) hlast
    rw [Option.bind_map, Option.bind_map] at this
    exact this
  refine ⟨fun question => ?_, buildSessionContextText_congr houtlines, hsql, fun sources route => ?_⟩
  · rw [AskRecord.basis, AskRecord.basis, ← classifyBasis_outline, hlast, classifyBasis_outline, hprevious]
  · rw [AskRecord.previousSource, AskRecord.previousSource, hsql, hprevious]

theorem recordOf_append (entries : List (AskedTurn × AskedMemory)) (t : AskedTurn) (m : AskedMemory) :
    (recordOf entries).append t m = recordOf (entries ++ [(t, m)]) := by
  rw [AskRecord.append, recordOf, recordOf, List.map_append, List.map_append, OrderedDict.ofPairs,
    OrderedDict.ofPairs, List.foldl_append]
  rfl

theorem lookup_recordOf_append (entries : List (AskedTurn × AskedMemory)) (t : AskedTurn) (m : AskedMemory) :
    (recordOf (entries ++ [(t, m)])).memory.lookup t.turnId = some m := by
  rw [← recordOf_append]
  exact OrderedDict.lookup_assign_self _ _ _

/-- **A follow-up inherits the filters of the last turn.** -/
theorem basis_inheritedFilters {question : String} (hcue : containsAny question cteRefinementCues = true)
    (hid : t.turnId ≠ "") :
    ((recordOf (entries ++ [(t, m)])).basis question).inheritedFilters = m.filters := by
  have hlast : (recordOf (entries ++ [(t, m)])).lastTurn = some t := by
    rw [AskRecord.lastTurn, recordOf, List.map_append]
    exact List.getLast?_concat
  have hmemory : (recordOf (entries ++ [(t, m)])).previousMemory = some m := by
    rw [AskRecord.previousMemory, hlast, Option.map_some, AskRecord.memoryFor, orNothing,
      Option.filter_some_pos (by simpa using hid), Option.bind_some]
    exact lookup_recordOf_append entries t m
  rw [AskRecord.basis, hlast, hmemory, classifyBasis, if_pos hcue]
  rfl

end View

/-! ## Rebuilding the record -/

/-- The turns with the indices `ask` gives them. -/
def numbered (turns : List (AskedTurn × AskedMemory)) : List (AskedTurn × AskedMemory) :=
  turns.zipIdx.map fun e => ({ e.1.1 with index := e.2 + 1 }, e.1.2)

@[simp] theorem length_numbered (turns : List (AskedTurn × AskedMemory)) : (numbered turns).length = turns.length := by
  rw [numbered, List.length_map, List.length_zipIdx]

theorem numbered_append (turns : List (AskedTurn × AskedMemory)) (t : AskedTurn) (m : AskedMemory) :
    numbered (turns ++ [(t, m)]) = numbered turns ++ [({ t with index := turns.length + 1 }, m)] := by
  rw [numbered, numbered, List.zipIdx_append, List.map_append, Nat.zero_add]
  rfl

theorem map_turnId_numbered (turns : List (AskedTurn × AskedMemory)) :
    (numbered turns).map (fun e => e.1.turnId) = turns.map fun e => e.1.turnId := by
  induction turns using List.reverseRecOn with
  | nil => rfl
  | append_singleton turns e ih =>
    obtain ⟨t, m⟩ := e
    rw [numbered_append, List.map_append, List.map_append, ih]
    rfl

theorem index_le_length {turns : List (AskedTurn × AskedMemory)} {e : AskedTurn × AskedMemory}
    (he : e ∈ numbered turns) : e.1.index ≤ turns.length := by
  obtain ⟨⟨x, i⟩, hx, rfl⟩ := List.mem_map.mp he
  have hi := (List.mem_zipIdx hx).2.1
  show (i : ℤ) + 1 ≤ turns.length
  omega

/-- The indices grow. -/
theorem pairwise_index_numbered (turns : List (AskedTurn × AskedMemory)) :
    (numbered turns).Pairwise fun e e' => e.1.index ≤ e'.1.index := by
  induction turns using List.reverseRecOn with
  | nil => exact .nil
  | append_singleton turns e ih =>
    obtain ⟨t, m⟩ := e
    rw [numbered_append, List.pairwise_append]
    refine ⟨ih, List.pairwise_singleton _ _, fun e he e' he' => ?_⟩
    rw [List.mem_singleton.mp he']
    have := index_le_length he
    show e.1.index ≤ (turns.length : ℤ) + 1
    omega

/-- **A row that reads back as an entry.** -/
structure ReadsAs (row : StoredTurn) (e : AskedTurn × AskedMemory) : Prop where
  /-- The key column. -/
  turnId : row.turnId = e.1.turnId
  /-- The column the rows are ordered by. -/
  turnIndex : row.turnIndex = e.1.index
  /-- The documents. -/
  docs : ∃ turn, loadedTurn row.turnJson = some turn ∧ turn.outline = e.1.outline ∧
    loadedMemory row.memoryJson = some e.2

/-- Related elements with equal values have equal lists of them. -/
theorem map_eq_of_forall₂ {α β γ : Type*} {R : α → β → Prop} {f : α → γ} {g : β → γ} {l : List α} {l' : List β}
    (h : List.Forall₂ R l l') (hR : ∀ a b, R a b → f a = g b) : l.map f = l'.map g := by
  have heq : List.Forall₂ (· = ·) (l.map f) (l'.map g) :=
    List.forall₂_map_left_iff.mpr (List.forall₂_map_right_iff.mpr (h.imp hR))
  rwa [List.forall₂_eq_eq_eq] at heq

theorem mapM_of_readsAs {rows : List StoredTurn} {entries : List (AskedTurn × AskedMemory)}
    (h : List.Forall₂ ReadsAs rows entries) : ∃ rebuilt,
    (rows.mapM fun row => do
      let turn ← loadedTurn row.turnJson
      let memory ← loadedMemory row.memoryJson
      return (turn, memory)) = some rebuilt ∧ rebuilt.map entryView = entries.map entryView := by
  induction h with
  | nil => exact ⟨[], rfl, rfl⟩
  | @cons row e rows entries hrow _ ih =>
    obtain ⟨rebuilt, hrebuilt, hview⟩ := ih
    obtain ⟨turn, hturn, houtline, hmemory⟩ := hrow.docs
    refine ⟨(turn, e.2) :: rebuilt, ?_, ?_⟩
    · rw [List.mapM_cons, hrebuilt, hturn, hmemory]
      rfl
    · rw [List.map_cons, List.map_cons, hview, entryView, entryView, houtline]

/-- **Rows in the order of their entries are rebuilt to a record of these entries**, to all a later question
can read. -/
theorem loadRecord_of_readsAs {rows : List StoredTurn} {entries : List (AskedTurn × AskedMemory)}
    (h : List.Forall₂ ReadsAs rows entries) (hsorted : entries.Pairwise fun e e' => e.1.index ≤ e'.1.index) :
    ∃ rebuilt, loadRecord rows = some (recordOf rebuilt) ∧ rebuilt.map entryView = entries.map entryView := by
  have hindex : rows.map (·.turnIndex) = entries.map fun e => e.1.index :=
    map_eq_of_forall₂ h fun _ _ hread => hread.turnIndex
  have hrows : rows.Pairwise fun r r' => r.turnIndex ≤ r'.turnIndex := by
    have hmap : (rows.map (·.turnIndex)).Pairwise (· ≤ ·) := by
      rw [hindex]
      exact List.pairwise_map.mpr hsorted
    exact List.pairwise_map.mp hmap
  obtain ⟨rebuilt, hrebuilt, hview⟩ := mapM_of_readsAs h
  refine ⟨rebuilt, ?_, hview⟩
  rw [loadRecord, List.Pairwise.insertionSort_eq hrows, hrebuilt]
  rfl

/-! ## What a save leaves -/

section Saved

variable {t : AskedTurn} {m : AskedMemory}

/-- **A saved row reads back** as the turn, with the filters JSON makes of its filters. -/
theorem readsAs_savedRow {row : StoredTurn} (h : savedRow t (some m) = some row) :
    ∃ doc filters, jsonDumps (.ofDict m.filters) = some doc ∧ jsonLoads doc = .ofDict filters ∧
      ReadsAs row (t, { m with filters := filters }) := by
  obtain ⟨turnDoc, hturn, h⟩ := Option.bind_eq_some_iff.mp h
  obtain ⟨memDoc, hmem, h⟩ := Option.bind_eq_some_iff.mp h
  cases h
  obtain ⟨turn, hload, houtline⟩ := loadedTurn_turnJson hturn
  obtain ⟨doc, filters, hdumps, hloads, hmemory⟩ := loadedMemory_memoryJson hmem
  exact ⟨doc, filters, hdumps, hloads, rfl, rfl, turn, hload, houtline, hmemory⟩

/-- A `dict` with string keys tells its dictionary. -/
theorem ofDict_inj {d d' : OrderedDict String PyValue} (h : PyValue.ofDict d = .ofDict d') : d = d' := by
  have := congrArg PyValue.asDict h
  rwa [asDict_ofDict, asDict_ofDict, Option.some.injEq] at this

/-- **A storable turn is saved, and reads back.** -/
theorem Storable.savedRow (h : Storable (t, m)) : ∃ row, savedRow t (some m) = some row ∧ ReadsAs row (t, m) := by
  obtain ⟨doc, hdumps, hloads⟩ := jsonLoads_of_isJson (isJson_ofDict.mpr h.filters)
  have hsome : (LocalSqlAgent.savedRow t (some m)).isSome :=
    savedRow_isSome_iff.mpr ⟨h.cells, h.status, by rw [hdumps]; rfl⟩
  obtain ⟨row, hrow⟩ := Option.isSome_iff_exists.mp hsome
  obtain ⟨doc', filters, hdumps', hloads', hread⟩ := readsAs_savedRow hrow
  cases hdumps.symm.trans hdumps'
  cases ofDict_inj (hloads.symm.trans hloads')
  exact ⟨row, hrow, hread⟩

/-- **A saved turn whose filters read back as they were is storable.** -/
theorem storable_of_savedRow {row : StoredTurn} (h : savedRow t (some m) = some row)
    (hfilters : ∀ doc, jsonDumps (.ofDict m.filters) = some doc → jsonLoads doc = .ofDict m.filters) :
    Storable (t, m) := by
  obtain ⟨hcells, hstatus, hdumps⟩ := savedRow_isSome_iff.mp (Option.isSome_iff_exists.mpr ⟨row, h⟩)
  obtain ⟨doc, hdoc⟩ := Option.isSome_iff_exists.mp hdumps
  exact ⟨hcells, hstatus, isJson_ofDict.mp (isJson_iff.mpr ⟨doc, hdoc, hfilters doc hdoc⟩)⟩

end Saved

/-! ## Runs -/

/-- **The session after some turns**, whatever was demoted: nothing was refused, and both the record in
memory and the stored rows are of these turns. -/
structure Agrees (s : Conversation) (turns : List (AskedTurn × AskedMemory)) : Prop where
  /-- No save raised. -/
  refused : s.refused = false
  /-- The record in memory. -/
  hot : ∀ r, s.hot = some r → ∃ entries, r = recordOf entries ∧ entries.map entryView = (numbered turns).map entryView
  /-- The stored rows. -/
  stored : List.Forall₂ ReadsAs s.stored (numbered turns)

/-- The turn as `ask` numbers it. -/
def AskedTurn.at (t : AskedTurn) (n : Nat) : AskedTurn := { t with index := n + 1 }

section Runs

variable {s : Conversation} {turns : List (AskedTurn × AskedMemory)} {t : AskedTurn} {m : AskedMemory}

/-- **In memory or rebuilt, the record is of the turns asked.** -/
theorem Agrees.current (h : Agrees s turns) :
    ∃ entries, s.current = some (recordOf entries) ∧ entries.map entryView = (numbered turns).map entryView := by
  rw [Conversation.current]
  cases hhot : s.hot with
  | some r =>
    obtain ⟨entries, rfl, hview⟩ := h.hot r hhot
    exact ⟨entries, rfl, hview⟩
  | none => exact loadRecord_of_readsAs h.stored (pairwise_index_numbered turns)

theorem upsertTurn_of_notMem {row : StoredTurn} {rows : List StoredTurn} (h : row.turnId ∉ rows.map (·.turnId)) :
    upsertTurn row rows = rows ++ [row] := by
  have hnone : (rows.any fun r => r.turnId = row.turnId) = false := by
    rw [List.any_eq_false]
    intro r hr heq
    exact h (List.mem_map.mpr ⟨r, hr, by simpa using heq⟩)
  rw [upsertTurn, hnone]
  rfl

theorem Agrees.map_turnId (h : Agrees s turns) : s.stored.map (·.turnId) = turns.map fun e => e.1.turnId := by
  rw [← map_turnId_numbered]
  exact map_eq_of_forall₂ h.stored fun _ _ hread => hread.turnId

/-- **One turn**: what `step` does from a state that agrees. -/
theorem Agrees.step_turn (h : Agrees s turns) (hfresh : t.turnId ∉ turns.map fun e => e.1.turnId) :
    ∃ entries, entries.map entryView = (numbered turns).map entryView ∧
      (∀ row, savedRow (t.at turns.length) (some m) = some row →
        s.step (.turn t m) = ⟨some (recordOf (entries ++ [(t.at turns.length, m)])), s.stored ++ [row], s.refused⟩) ∧
      (savedRow (t.at turns.length) (some m) = none → (s.step (.turn t m)).refused = true) := by
  obtain ⟨entries, hcurrent, hview⟩ := h.current
  have hlen : entries.length = turns.length := by
    have := congrArg List.length hview
    rwa [List.length_map, List.length_map, length_numbered] at this
  have hturn : ({ t with index := ((recordOf entries).turns.length : ℤ) + 1 } : AskedTurn) = t.at turns.length := by
    rw [recordOf, List.length_map, hlen]
    rfl
  have hlookup : (recordOf (entries ++ [(t.at turns.length, m)])).memory.lookup t.turnId = some m :=
    lookup_recordOf_append entries (t.at turns.length) m
  refine ⟨entries, hview, fun row hrow => ?_, fun hnone => ?_⟩
  · have hid : row.turnId ∉ s.stored.map (·.turnId) := by
      obtain ⟨_, _, _, _, hread⟩ := readsAs_savedRow hrow
      rw [hread.turnId, h.map_turnId]
      exact hfresh
    rw [Conversation.step, hcurrent]
    dsimp only
    rw [hturn, recordOf_append, hlookup, hrow]
    dsimp only
    rw [upsertTurn_of_notMem hid]
  · rw [Conversation.step, hcurrent]
    dsimp only
    rw [hturn, recordOf_append, hlookup, hnone]

theorem Storable.at (h : Storable (t, m)) (n : Nat) : Storable (t.at n, m) := ⟨h.cells, h.status, h.filters⟩

/-- **A storable turn keeps the agreement.** -/
theorem Agrees.turn (h : Agrees s turns) (hfresh : t.turnId ∉ turns.map fun e => e.1.turnId)
    (hstorable : Storable (t, m)) : Agrees (s.step (.turn t m)) (turns ++ [(t, m)]) := by
  obtain ⟨row, hrow, hread⟩ := (hstorable.at turns.length).savedRow
  obtain ⟨entries, hview, hsaved, -⟩ := h.step_turn hfresh
  rw [hsaved row hrow]
  refine ⟨h.refused, fun r hr => ⟨_, (Option.some.inj hr).symm, ?_⟩, ?_⟩
  · rw [numbered_append, List.map_append, List.map_append, hview]
    rfl
  · rw [numbered_append]
    exact List.rel_append h.stored (.cons hread .nil)

/-- **So does a demotion**: the rows hold what the record held. -/
theorem Agrees.demote (h : Agrees s turns) : Agrees (s.step .demote) turns :=
  ⟨h.refused, fun _ hr => absurd hr (by rw [Conversation.step]; simp), h.stored⟩

theorem turnsOf_append (events events' : List ConversationEvent) :
    turnsOf (events ++ events') = turnsOf events ++ turnsOf events' := List.filterMap_append

theorem turnsOf_undemoted (turns : List (AskedTurn × AskedMemory)) : turnsOf (undemoted turns) = turns := by
  rw [turnsOf, undemoted, List.filterMap_map]
  exact List.filterMap_some

theorem converse_append (events : List ConversationEvent) (e : ConversationEvent) :
    converse (events ++ [e]) = (converse events).step e := by
  rw [converse, List.foldl_append]
  rfl

/-- **Every session of storable turns agrees**, demoted or not. -/
theorem agrees_converse (events : List ConversationEvent)
    (hids : ((turnsOf events).map fun e => e.1.turnId).Nodup) (hall : ∀ e ∈ turnsOf events, Storable e) :
    Agrees (converse events) (turnsOf events) := by
  induction events using List.reverseRecOn with
  | nil => exact ⟨rfl, fun r hr => ⟨[], (Option.some.inj hr).symm, rfl⟩, .nil⟩
  | append_singleton events e ih =>
    rw [turnsOf_append] at hids hall
    rw [List.map_append, List.nodup_append] at hids
    have hinit := ih hids.1 fun e he => hall e (List.mem_append_left _ he)
    rw [converse_append, turnsOf_append]
    cases e with
    | demote =>
      rw [show turnsOf [.demote] = [] from rfl, List.append_nil]
      exact hinit.demote
    | turn t m =>
      have hfresh : t.turnId ∉ (turnsOf events).map fun e => e.1.turnId := fun hmem =>
        hids.2.2 _ hmem _ (List.mem_singleton_self _) rfl
      exact hinit.turn hfresh (hall (t, m) (List.mem_append_right _ (List.mem_singleton_self _)))

/-- A row more is rebuilt to an entry more. -/
theorem Agrees.rebuilt (h : Agrees s turns) {row : StoredTurn} (hread : ReadsAs row (t.at turns.length, m)) :
    ∃ entries, loadRecord (s.stored ++ [row]) = some (recordOf entries) ∧
      entries.map entryView = (numbered turns ++ [(t.at turns.length, m)]).map entryView := by
  refine loadRecord_of_readsAs (List.rel_append h.stored (.cons hread .nil)) ?_
  have hsorted := pairwise_index_numbered (turns ++ [(t, m)])
  rwa [numbered_append] at hsorted

/-- **Records alike to a follow-up** have the same filters on their last turn. -/
theorem filters_of_sameNext {before entries rebuilt : List (AskedTurn × AskedMemory)} {m' : AskedMemory}
    (hrebuilt : rebuilt.map entryView = (before ++ [(t, m')]).map entryView) (hid : t.turnId ≠ "")
    (hsame : SameNext (recordOf rebuilt) (recordOf (entries ++ [(t, m)]))) : m'.filters = m.filters := by
  have hcue : containsAny "among those" cteRefinementCues = true := by decide
  have hbasis := ((sameNext_of_entryView hrebuilt).basis "among those").symm.trans (hsame.basis "among those")
  have hfilters := congrArg BasisDecision.inheritedFilters hbasis
  rwa [basis_inheritedFilters hcue hid, basis_inheritedFilters hcue hid] at hfilters

/-- **A turn of an invisible rehydration is storable**, after turns that are. -/
theorem storable_of_invisible {all : List (AskedTurn × AskedMemory)} (h : RehydrationInvisible all)
    (hinit : turns ++ [(t, m)] <+: all) (hids : FreshIds all) (hbefore : ∀ e ∈ turns, Storable e) :
    Storable (t, m) := by
  have hnodup : ((turns ++ [(t, m)]).map fun e => e.1.turnId).Nodup :=
    hids.nodup.sublist (hinit.sublist.map _)
  rw [List.map_append, List.nodup_append] at hnodup
  have hagrees : Agrees (converse (undemoted turns)) turns := by
    have := agrees_converse (undemoted turns)
    rw [turnsOf_undemoted] at this
    exact this hnodup.1 hbefore
  have hfresh : t.turnId ∉ turns.map fun e => e.1.turnId := fun hmem =>
    hnodup.2.2 _ hmem _ (List.mem_singleton_self _) rfl
  have hid : t.turnId ≠ "" := hids.nonempty _ (hinit.subset (List.mem_append_right _ (List.mem_singleton_self _)))
  obtain ⟨entries, hview, hsaved, hrefused⟩ := @Agrees.step_turn _ _ t m hagrees hfresh
  have hasked : undemoted (turns ++ [(t, m)]) = undemoted turns ++ [.turn t m] := by
    rw [undemoted, undemoted, List.map_append]
    rfl
  -- the save succeeds
  have hok : (converse (undemoted (turns ++ [(t, m)]))).refused = false :=
    h.saved _ (by rw [turnsOf_undemoted]; exact hinit)
  rw [hasked, converse_append] at hok
  obtain ⟨row, hrow⟩ : ∃ row, savedRow (t.at turns.length) (some m) = some row := by
    rw [← Option.ne_none_iff_exists']
    intro hnone
    rw [hrefused hnone] at hok
    cases hok
  -- and what the rebuilt record offers to a follow-up is what the filters were
  suffices hat : Storable (t.at turns.length, m) from ⟨hat.cells, hat.status, hat.filters⟩
  refine storable_of_savedRow hrow fun doc hdoc => ?_
  obtain ⟨doc', filters, hdumps, hloads, hread⟩ := readsAs_savedRow hrow
  cases hdoc.symm.trans hdumps
  have hevents : turnsOf (undemoted (turns ++ [(t, m)]) ++ [.demote]) = turns ++ [(t, m)] := by
    rw [turnsOf_append, turnsOf_undemoted]
    exact List.append_nil _
  obtain ⟨r, r', hr, hr', hsame⟩ := h.next (undemoted (turns ++ [(t, m)]) ++ [.demote]) (by rw [hevents]; exact hinit)
  rw [hevents, hasked, converse_append, hsaved row hrow] at hr'
  cases Option.some.inj hr'
  rw [converse_append, hasked, converse_append, hsaved row hrow] at hr
  obtain ⟨rebuilt, hload, hrebuilt⟩ := hagrees.rebuilt hread
  cases Option.some.inj (hload.symm.trans hr)
  rw [hloads, show filters = m.filters from filters_of_sameNext hrebuilt hid hsame]

/-- **Rehydration is invisible exactly to storable turns**: every cell, and the status, has a JSON form, and
JSON holds every filter. -/
theorem rehydrationInvisible_iff (hids : FreshIds turns) :
    RehydrationInvisible turns ↔ ∀ e ∈ turns, Storable e := by
  constructor
  · intro h
    -- turn by turn: the turns before one are storable
    suffices hinits : ∀ l, l <+: turns → ∀ e ∈ l, Storable e from hinits turns List.prefix_rfl
    intro l
    induction l using List.reverseRecOn with
    | nil => exact fun _ _ he => absurd he List.not_mem_nil
    | append_singleton l e ih =>
      intro hinit e' he'
      have hbefore := ih ((List.prefix_append l [e]).trans hinit)
      obtain hold | hnew := List.mem_append.mp he'
      · exact hbefore e' hold
      · rw [List.mem_singleton.mp hnew]
        exact storable_of_invisible h hinit hids hbefore
  · intro h
    have hagrees : ∀ events, turnsOf events <+: turns → Agrees (converse events) (turnsOf events) :=
      fun events hinit => agrees_converse events (hids.nodup.sublist (hinit.sublist.map _))
        fun e he => h e (hinit.subset he)
    refine ⟨fun events hinit => (hagrees events hinit).refused, fun events hinit => ?_,
      fun e _ rows row row' hrow hrow' => savedRow_withRows hrow hrow'⟩
    obtain ⟨entries, hcurrent, hview⟩ := (hagrees events hinit).current
    have hnever := hagrees (undemoted (turnsOf events)) (by rw [turnsOf_undemoted]; exact hinit)
    rw [turnsOf_undemoted] at hnever
    obtain ⟨entries', hcurrent', hview'⟩ := hnever.current
    exact ⟨_, _, hcurrent, hcurrent', sameNext_of_entryView (hview.trans hview'.symm)⟩

end Runs

/-! ## Examples -/

/-- A turn with one cell in its result. -/
def cellTurn (turnId : String) (cell : PyValue) : AskedTurn where
  turnId := turnId
  sessionId := "s_1"
  index := 1
  question := "photo of customer 7"
  sql := some "SELECT TOP 10 Photo FROM sales.Customer"
  result := some ⟨[("Photo", "string")], [.ofPairs [("Photo", cell)]], 1, false, false⟩
  llm := none

/-- A memory with a text and a number among its filters. -/
def ringMemory : AskedMemory where
  filters := .ofPairs [("Ring", .str "A"), ("PersianYear", .int 1402)]
  resultColumns := ["Photo"]
  sql := some "SELECT TOP 10 Photo FROM sales.Customer"
  injectedTop := some 10
  rowCount := 1
  datasource := none

/-- **A `varbinary` cell stops the save**: the byte `FF` is not UTF-8. The turn is in the record, and gone
once the record is rebuilt. -/
theorem photoTurn_not_rehydrationInvisible :
    ¬ RehydrationInvisible [(cellTurn "t_1" (.bytes ⟨#[0xff]⟩), ringMemory)] := by
  intro h
  have hsaved := h.saved [.turn (cellTurn "t_1" (.bytes ⟨#[0xff]⟩)) ringMemory] List.prefix_rfl
  exact absurd hsaved (by decide)

theorem cellTurn_storable {turnId : String} {cell : PyValue} (h : Encodable cell) :
    Storable (cellTurn turnId cell, ringMemory) where
  cells := by
    intro r hr row hrow e he
    cases hr
    rw [List.mem_singleton.mp hrow] at he
    obtain ⟨p, hp, rfl⟩ := OrderedDict.exists_of_mem_ofPairs he
    rw [List.mem_singleton.mp hp]
    exact h
  status _ hstatus := by cases hstatus
  filters e he := by
    obtain ⟨p, hp, rfl⟩ := OrderedDict.exists_of_mem_ofPairs he
    obtain rfl | hp := List.mem_cons.mp hp
    · trivial
    · rw [List.mem_singleton.mp hp]
      trivial

theorem captionTurns_rehydrationInvisible : RehydrationInvisible
    [(cellTurn "t_1" (.bytes ⟨#[0x61]⟩), ringMemory), (cellTurn "t_2" (.standard "Decimal" "1.50"), ringMemory)] := by
  have hids : FreshIds [(cellTurn "t_1" (.bytes ⟨#[0x61]⟩), ringMemory),
      (cellTurn "t_2" (.standard "Decimal" "1.50"), ringMemory)] := by
    refine ⟨by decide, List.forall_mem_cons.mpr ⟨by decide, List.forall_mem_singleton.mpr (by decide)⟩⟩
  refine (rehydrationInvisible_iff hids).mpr (List.forall_mem_cons.mpr ⟨?_, List.forall_mem_singleton.mpr ?_⟩)
  · have hutf8 : ByteArray.IsValidUTF8 ⟨#[0x61]⟩ := by decide
    exact cellTurn_storable hutf8
  · exact cellTurn_storable trivial

end LocalSqlAgent
