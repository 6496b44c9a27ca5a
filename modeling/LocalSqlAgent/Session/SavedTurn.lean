import LocalSqlAgent.Lib.PyValue

/-! # Saved turns

What `session.persistence` makes of one turn and its memory: two documents, written by `save_turn` and
read back by `load_turns`. A turn goes through pydantic, its result rows among the rest, and only then
are the rows taken out; the memory goes through `json.dumps` as it is.

* **`Encodable`**: the values pydantic writes, and `pydanticJson_isSome_iff`.
* **`savedRow`**: the row of `turns` a turn is saved as, `none` where the save raises.
* **`loadedTurn_turnJson`**, **`loadedMemory_memoryJson`**: what is read back.
* **`savedRow_isSome_iff`**, **`savedRow_congr`**: when the save succeeds, and that the rows are not in
  what it writes. -/

namespace LocalSqlAgent

/-! ## pydantic's JSON -/

/-- The member name pydantic gives a key. -/
def PyKey.pydanticName : PyKey → Option String
  | .none => some "None"
  | .bool b => some (if b then "true" else "false")
  | .int n => some (toString n)
  | .float repr => some repr
  | .str s => some s
  | .other _ => Option.none

mutual

/-- **`model_dump(mode="json")`** of a value typed `Any`: bytes are read as UTF-8, and an unknown type
raises. -/
def pydanticJson : PyValue → Option JsonDoc
  | .none => some .null
  | .bool b => some (.bool b)
  | .int n => some (.int n)
  | .float repr => some (.float repr)
  | .str s => some (.str s)
  | .bytes b => (String.fromUTF8? b).map .str
  | .standard _ text => some (.str text)
  | .list items => (pydanticItems items).map .arr
  | .tuple items => (pydanticItems items).map .arr
  | .dict entries => (pydanticEntries entries).map .obj
  | .object _ => Option.none

/-- The elements of a sequence. -/
def pydanticItems : List PyValue → Option (List JsonDoc)
  | [] => some []
  | v :: rest => do
    let doc ← pydanticJson v
    let docs ← pydanticItems rest
    return doc :: docs

/-- The members of a mapping. -/
def pydanticEntries : List (PyKey × PyValue) → Option (List (String × JsonDoc))
  | [] => some []
  | (k, v) :: rest => do
    let name ← k.pydanticName
    let doc ← pydanticJson v
    let docs ← pydanticEntries rest
    return (name, doc) :: docs

end

mutual

/-- **A value pydantic has a JSON form for**: all bytes in it are UTF-8, and all its types are known. -/
def Encodable : PyValue → Prop
  | .none => True
  | .bool _ => True
  | .int _ => True
  | .float _ => True
  | .str _ => True
  | .bytes b => b.IsValidUTF8
  | .standard _ _ => True
  | .list items => EncodableItems items
  | .tuple items => EncodableItems items
  | .dict entries => EncodableEntries entries
  | .object _ => False

/-- Every element has one. -/
def EncodableItems : List PyValue → Prop
  | [] => True
  | v :: rest => Encodable v ∧ EncodableItems rest

/-- Every key and every value has one. -/
def EncodableEntries : List (PyKey × PyValue) → Prop
  | [] => True
  | (k, v) :: rest => (∀ type, k ≠ .other type) ∧ Encodable v ∧ EncodableEntries rest

end

theorem PyKey.pydanticName_isSome_iff {k : PyKey} : k.pydanticName.isSome ↔ ∀ type, k ≠ .other type := by
  cases k <;> simp [PyKey.pydanticName]

theorem fromUTF8?_isSome_iff {b : ByteArray} : (String.fromUTF8? b).isSome ↔ b.IsValidUTF8 := by
  unfold String.fromUTF8?
  split <;> simp_all

mutual

/-- **pydantic writes exactly the values it has a form for.** -/
theorem pydanticJson_isSome_iff : ∀ {v : PyValue}, (pydanticJson v).isSome ↔ Encodable v
  | .none => ⟨fun _ => trivial, fun _ => rfl⟩
  | .bool _ => ⟨fun _ => trivial, fun _ => rfl⟩
  | .int _ => ⟨fun _ => trivial, fun _ => rfl⟩
  | .float _ => ⟨fun _ => trivial, fun _ => rfl⟩
  | .str _ => ⟨fun _ => trivial, fun _ => rfl⟩
  | .standard _ _ => ⟨fun _ => trivial, fun _ => rfl⟩
  | .object _ => ⟨fun h => (by cases h), fun h => (by cases h)⟩
  | .bytes b => by rw [pydanticJson, Encodable, Option.isSome_map, fromUTF8?_isSome_iff]
  | .list items => by rw [pydanticJson, Encodable, Option.isSome_map, pydanticItems_isSome_iff]
  | .tuple items => by rw [pydanticJson, Encodable, Option.isSome_map, pydanticItems_isSome_iff]
  | .dict entries => by rw [pydanticJson, Encodable, Option.isSome_map, pydanticEntries_isSome_iff]

theorem pydanticItems_isSome_iff : ∀ {items : List PyValue}, (pydanticItems items).isSome ↔ EncodableItems items
  | [] => ⟨fun _ => trivial, fun _ => rfl⟩
  | v :: rest => by
    rw [pydanticItems, EncodableItems, ← @pydanticJson_isSome_iff v, ← @pydanticItems_isSome_iff rest]
    cases pydanticJson v <;> cases pydanticItems rest <;> simp

theorem pydanticEntries_isSome_iff : ∀ {entries : List (PyKey × PyValue)},
    (pydanticEntries entries).isSome ↔ EncodableEntries entries
  | [] => ⟨fun _ => trivial, fun _ => rfl⟩
  | (k, v) :: rest => by
    rw [pydanticEntries, EncodableEntries, ← PyKey.pydanticName_isSome_iff, ← @pydanticJson_isSome_iff v,
      ← @pydanticEntries_isSome_iff rest]
    cases k.pydanticName <;> cases pydanticJson v <;> cases pydanticEntries rest <;> simp

end

/-! ## Turns and their memory -/

/-- `TurnResult`, its cells as the driver returned them. -/
structure AskedResult where
  /-- `columns`: names and types. -/
  columns : List (String × String)
  /-- `rows`. -/
  rows : List (OrderedDict String PyValue)
  /-- `row_count`. -/
  rowCount : Int
  /-- `truncated`. -/
  truncated : Bool
  /-- `rows_omitted`. -/
  rowsOmitted : Bool

/-- `Turn`: the fields a later question reads, and the free-typed ones. -/
structure AskedTurn where
  /-- `turn_id`. -/
  turnId : String
  /-- `session_id`. -/
  sessionId : String
  /-- `index`, from 1. -/
  index : Int
  /-- `question`. -/
  question : String
  /-- `sql`. -/
  sql : Option String
  /-- `result`. -/
  result : Option AskedResult
  /-- `llm`. -/
  llm : Option (OrderedDict String PyValue)

/-- `TurnMemory`. -/
structure AskedMemory where
  /-- `filters`. -/
  filters : OrderedDict String PyValue
  /-- `result_columns`. -/
  resultColumns : List String
  /-- `sql`. -/
  sql : Option String
  /-- `injected_top`. -/
  injectedTop : Option Int
  /-- `row_count`. -/
  rowCount : Int
  /-- `datasource`. -/
  datasource : Option String

namespace AskedTurn

/-- The turn with other result rows. -/
def withRows (t : AskedTurn) (rows : List (OrderedDict String PyValue)) : AskedTurn :=
  { t with result := t.result.map fun r => { r with rows := rows } }

/-- **What a later question can read of a turn**: all but its rows, the flag about them, and the model's
status. -/
def outline (t : AskedTurn) : AskedTurn :=
  { t with result := t.result.map fun r => { r with rows := [], rowsOmitted := false }, llm := none }

end AskedTurn

/-! ## Writing -/

/-- `d[k] = v` on a document's members. -/
def setEntry {κ ν : Type*} [DecidableEq κ] (k : κ) (v : ν) : List (κ × ν) → List (κ × ν)
  | [] => [(k, v)]
  | e :: rest => if e.1 = k then (k, v) :: rest else e :: setEntry k v rest

/-- A value or `null`. -/
def JsonDoc.orNull (doc : Option JsonDoc) : JsonDoc := doc.getD .null

/-- A value or `None`. -/
def PyValue.orNone (v : Option PyValue) : PyValue := v.getD .none

/-- The members pydantic writes of a `ResultColumn`. -/
def columnDoc (c : String × String) : JsonDoc := .obj [("name", .str c.1), ("type", .str c.2)]

/-- The members pydantic writes of a `TurnResult`, every row among them. -/
def AskedResult.modelDump (r : AskedResult) : Option (List (String × JsonDoc)) := do
  let rows ← r.rows.mapM fun row => pydanticJson (.ofDict row)
  return [("columns", .arr (r.columns.map columnDoc)), ("rows", .arr rows), ("row_count", .int r.rowCount),
    ("truncated", .bool r.truncated), ("rows_omitted", .bool r.rowsOmitted)]

/-- The status pydantic writes, `null` for none; the outer `none` is its error. -/
def llmDoc : Option (OrderedDict String PyValue) → Option JsonDoc
  | none => some .null
  | some status => pydanticJson (.ofDict status)

/-- The result's members after pydantic, and after `data["result"]["rows"] = []`. -/
def resultDoc : Option AskedResult → Option JsonDoc
  | none => some .null
  | some r => r.modelDump.map fun members => .obj (setEntry "rows" (.arr []) members)

/-- `turn_json`: the whole turn is dumped before its rows are taken out. -/
def AskedTurn.turnJson (t : AskedTurn) : Option JsonDoc := do
  let result ← resultDoc t.result
  let llm ← llmDoc t.llm
  return .obj [("turn_id", .str t.turnId), ("session_id", .str t.sessionId), ("index", .int t.index),
    ("question", .str t.question), ("sql", .orNull (t.sql.map .str)), ("result", result), ("llm", llm)]

/-- `memory_payload`. -/
def memoryPayload (m : Option AskedMemory) : List (PyKey × PyValue) :=
  [(.str "filters", m.elim (.dict []) fun m => .ofDict m.filters),
    (.str "result_columns", m.elim (.list []) fun m => .list (m.resultColumns.map .str)),
    (.str "sql", .orNone ((m.bind (·.sql)).map .str)),
    (.str "injected_top", .orNone ((m.bind (·.injectedTop)).map .int)),
    (.str "row_count", m.elim (.int 0) fun m => .int m.rowCount)] ++
  ((m.bind (·.datasource)).map fun source => (PyKey.str "datasource", PyValue.str source)).toList

/-- A row of `turns`, for one session. -/
structure StoredTurn where
  /-- `turn_id`. -/
  turnId : String
  /-- `turn_index`. -/
  turnIndex : Int
  /-- `turn_json`. -/
  turnJson : JsonDoc
  /-- `memory_json`. -/
  memoryJson : JsonDoc

/-- **The row `save_turn` writes**; `none` where one of the encoders raises. -/
def savedRow (t : AskedTurn) (m : Option AskedMemory) : Option StoredTurn := do
  let turnJson ← t.turnJson
  let memoryJson ← jsonDumps (.dict (memoryPayload m))
  return ⟨t.turnId, t.index, turnJson, memoryJson⟩

/-! ## Reading -/

namespace PyValue

/-- `d.get(key)`. -/
def get (v : PyValue) (key : String) : Option PyValue :=
  match v with
  | .dict entries => entries.lookup (.str key)
  | _ => Option.none

/-- `d[key] = v`. -/
def set (v : PyValue) (key : String) (x : PyValue) : PyValue :=
  match v with
  | .dict entries => .dict (setEntry (.str key) x entries)
  | v => v

/-- A field of a `dict`, read as its type; a missing one is its default, if it has one. -/
def field {α : Type} (v : PyValue) (key : String) (read : PyValue → Option α) (default : Option α) : Option α :=
  match v with
  | .dict entries => (entries.lookup (.str key)).elim default read
  | _ => Option.none

/-- A `str`. -/
def asStr : PyValue → Option String
  | .str s => some s
  | _ => Option.none

/-- An `int`. -/
def asInt : PyValue → Option Int
  | .int n => some n
  | _ => Option.none

/-- A `bool`. -/
def asBool : PyValue → Option Bool
  | .bool b => some b
  | _ => Option.none

/-- A `list`. -/
def asList {α : Type} (read : PyValue → Option α) : PyValue → Option (List α)
  | .list items => items.mapM read
  | _ => Option.none

/-- A value of the type, or `None`. -/
def asOption {α : Type} (read : PyValue → Option α) : PyValue → Option (Option α)
  | .none => some Option.none
  | v => (read v).map some

/-- A key and its value in a `dict` with string keys. -/
def asEntry : PyKey × PyValue → Option (String × PyValue)
  | (.str k, v) => some (k, v)
  | _ => Option.none

/-- A `dict` with string keys. -/
def asDict : PyValue → Option (OrderedDict String PyValue)
  | .dict entries => (entries.mapM asEntry).map .ofPairs
  | _ => Option.none

@[simp] theorem asStr_str (s : String) : asStr (.str s) = some s := rfl

@[simp] theorem asInt_int (n : Int) : asInt (.int n) = some n := rfl

@[simp] theorem asBool_bool (b : Bool) : asBool (.bool b) = some b := rfl

@[simp] theorem asList_list {α : Type} (read : PyValue → Option α) (items : List PyValue) :
    asList read (.list items) = items.mapM read := rfl

@[simp] theorem asOption_none {α : Type} (read : PyValue → Option α) :
    asOption read .none = some Option.none := rfl

@[simp] theorem asOption_str {α : Type} (read : PyValue → Option α) (s : String) :
    asOption read (.str s) = (read (.str s)).map some := rfl

@[simp] theorem asOption_dict {α : Type} (read : PyValue → Option α) (entries : List (PyKey × PyValue)) :
    asOption read (.dict entries) = (read (.dict entries)).map some := rfl

@[simp] theorem beq_str (a b : String) : (PyKey.str a == PyKey.str b) = (a == b) := by
  rw [Bool.eq_iff_iff, beq_iff_eq, beq_iff_eq, PyKey.str.injEq]

end PyValue

open PyValue

/-- `ResultColumn`. -/
def readColumn (v : PyValue) : Option (String × String) := do
  let name ← v.field "name" asStr none
  let type ← v.field "type" asStr (some "string")
  return (name, type)

/-- `TurnResult`. -/
def readResult (v : PyValue) : Option AskedResult := do
  let columns ← v.field "columns" (asList readColumn) (some [])
  let rows ← v.field "rows" (asList asDict) (some [])
  let rowCount ← v.field "row_count" asInt (some 0)
  let truncated ← v.field "truncated" asBool (some false)
  let rowsOmitted ← v.field "rows_omitted" asBool (some false)
  return ⟨columns, rows, rowCount, truncated, rowsOmitted⟩

/-- `Turn.model_validate`. -/
def modelValidate (data : PyValue) : Option AskedTurn := do
  let turnId ← data.field "turn_id" asStr none
  let sessionId ← data.field "session_id" asStr none
  let index ← data.field "index" asInt none
  let question ← data.field "question" asStr none
  let sql ← data.field "sql" (asOption asStr) (some none)
  let result ← data.field "result" (asOption readResult) (some none)
  let llm ← data.field "llm" (asOption asDict) (some none)
  return ⟨turnId, sessionId, index, question, sql, result, llm⟩

/-- `data["result"]`, if there is one, without rows and marked so. -/
def omitRows (data : PyValue) : PyValue :=
  match data.get "result" with
  | some (.dict entries) =>
    data.set "result" (((PyValue.dict entries).set "rows" (.list [])).set "rows_omitted" (.bool true))
  | _ => data

/-- **A stored turn, read back.** -/
def loadedTurn (turnJson : JsonDoc) : Option AskedTurn := modelValidate (omitRows (jsonLoads turnJson))

/-- **A stored memory, read back**, with the defaults of `mem.get`. -/
def loadedMemory (memoryJson : JsonDoc) : Option AskedMemory := do
  let mem := jsonLoads memoryJson
  let filters ← mem.field "filters" asDict (some ∅)
  let resultColumns ← mem.field "result_columns" (asList asStr) (some [])
  let sql ← mem.field "sql" (asOption asStr) (some none)
  let injectedTop ← mem.field "injected_top" (asOption asInt) (some none)
  let rowCount ← mem.field "row_count" asInt (some 0)
  let datasource ← mem.field "datasource" (asOption asStr) (some none)
  return ⟨filters, resultColumns, sql, injectedTop, rowCount, datasource⟩

/-! ## What is read back -/

section Reading

variable {t : AskedTurn} {m : AskedMemory}

theorem mapM_asEntry (l : List (DictEntry String PyValue)) :
    (l.map fun e => (PyKey.str e.1, e.2)).mapM asEntry = some (l.map fun e => (e.1, e.2)) := by
  induction l with
  | nil => rfl
  | cons e rest ih =>
    rw [List.map_cons, List.mapM_cons, ih]
    rfl

@[simp] theorem asDict_ofDict (d : OrderedDict String PyValue) : asDict (.ofDict d) = some d := by
  rw [PyValue.ofDict, asDict, mapM_asEntry, Option.map_some]
  have hnodup : ((d.entries.map fun e => (e.1, e.2)).map (·.1)).Nodup := by
    rw [List.map_map]
    exact d.keys_nodup
  refine congrArg some (AList.ext ?_)
  rw [OrderedDict.entries_ofPairs hnodup, List.map_map]
  exact List.map_id _

/-- A status that was written reads back as some status. -/
theorem asOption_llmDoc {doc : JsonDoc} (h : llmDoc t.llm = some doc) :
    ∃ llm, asOption asDict (jsonLoads doc) = some llm := by
  generalize t.llm = status at h
  cases status with
  | none =>
    cases h
    exact ⟨none, rfl⟩
  | some status =>
    rw [llmDoc, PyValue.ofDict, pydanticJson] at h
    obtain ⟨members, -, rfl⟩ := Option.map_eq_some_iff.mp h
    rw [jsonLoads]
    refine ⟨some (.ofPairs (jsonLoadsEntries members)), ?_⟩
    show (asDict (.ofDict _)).map some = _
    rw [asDict_ofDict, Option.map_some]

theorem mapM_readColumn (columns : List (String × String)) :
    (jsonLoadsItems (columns.map columnDoc)).mapM readColumn = some columns := by
  induction columns with
  | nil => rfl
  | cons c rest ih =>
    have hkeys : ([("name", JsonDoc.str c.1), ("type", .str c.2)].map (·.1)).Nodup :=
      show ["name", "type"].Nodup by decide
    have hc : readColumn (jsonLoads (columnDoc c)) = some c := by
      rw [columnDoc, jsonLoads_obj hkeys]
      rfl
    rw [List.map_cons, jsonLoadsItems, List.mapM_cons, hc, ih]
    rfl

/-- The members of a stored result: what pydantic wrote, but for the rows. -/
def AskedResult.storedMembers (r : AskedResult) : List (String × JsonDoc) :=
  [("columns", .arr (r.columns.map columnDoc)), ("rows", .arr []), ("row_count", .int r.rowCount),
    ("truncated", .bool r.truncated), ("rows_omitted", .bool r.rowsOmitted)]

theorem resultDoc_eq_some {r : AskedResult} {doc : JsonDoc} (h : resultDoc (some r) = some doc) :
    doc = .obj r.storedMembers := by
  rw [resultDoc, AskedResult.modelDump] at h
  obtain ⟨members, hmembers, rfl⟩ := Option.map_eq_some_iff.mp h
  obtain ⟨rows, -, hrows⟩ := Option.bind_eq_some_iff.mp hmembers
  cases hrows
  rfl

/-- A stored result reads back without rows, and marked so. -/
theorem readResult_storedMembers (r : AskedResult) :
    readResult (((jsonLoads (.obj r.storedMembers)).set "rows" (.list [])).set "rows_omitted" (.bool true)) =
      some { r with rows := [], rowsOmitted := true } := by
  have hkeys : (r.storedMembers.map (·.1)).Nodup :=
    show ["columns", "rows", "row_count", "truncated", "rows_omitted"].Nodup by decide
  rw [jsonLoads_obj hkeys, AskedResult.storedMembers]
  have hcolumns := mapM_readColumn r.columns
  simp [PyValue.set, setEntry, jsonLoads, jsonLoadsItems, readResult, field, List.lookup_cons, hcolumns]

/-- The members of a stored turn, but for the result and the status. -/
def AskedTurn.storedMembers (t : AskedTurn) (result llm : JsonDoc) : List (String × JsonDoc) :=
  [("turn_id", .str t.turnId), ("session_id", .str t.sessionId), ("index", .int t.index),
    ("question", .str t.question), ("sql", .orNull (t.sql.map .str)), ("result", result), ("llm", llm)]

theorem turnJson_eq_some {doc : JsonDoc} (h : t.turnJson = some doc) :
    ∃ result llm, resultDoc t.result = some result ∧ llmDoc t.llm = some llm ∧
      doc = .obj (t.storedMembers result llm) := by
  obtain ⟨result, hresult, h⟩ := Option.bind_eq_some_iff.mp h
  obtain ⟨llm, hllm, h⟩ := Option.bind_eq_some_iff.mp h
  exact ⟨result, llm, hresult, hllm, (Option.some.inj h).symm⟩

/-- **A stored turn reads back as the turn** that was saved, as far as a later question can read it. -/
theorem loadedTurn_turnJson {doc : JsonDoc} (h : t.turnJson = some doc) :
    ∃ t', loadedTurn doc = some t' ∧ t'.outline = t.outline := by
  obtain ⟨result, llm, hresult, hllm, rfl⟩ := turnJson_eq_some h
  obtain ⟨status, hstatus⟩ := asOption_llmDoc hllm
  have hsql : asOption asStr (jsonLoads (.orNull (t.sql.map .str))) = some t.sql := by cases t.sql <;> rfl
  have hkeys : ((t.storedMembers result llm).map (·.1)).Nodup :=
    show ["turn_id", "session_id", "index", "question", "sql", "result", "llm"].Nodup by decide
  rw [loadedTurn, jsonLoads_obj hkeys, AskedTurn.storedMembers]
  cases hres : t.result with
  | none =>
    rw [hres] at hresult
    cases hresult
    refine ⟨⟨t.turnId, t.sessionId, t.index, t.question, t.sql, none, status⟩, ?_, ?_⟩
    · simp [omitRows, PyValue.get, modelValidate, field, List.lookup_cons, hsql, hstatus, jsonLoads]
    · rw [AskedTurn.outline, AskedTurn.outline, hres]
  | some r =>
    rw [hres] at hresult
    cases resultDoc_eq_some hresult
    have hread := readResult_storedMembers r
    obtain ⟨entries, hentries⟩ : ∃ entries, jsonLoads (.obj r.storedMembers) = .dict entries :=
      ⟨_, by rw [jsonLoads, PyValue.ofDict]⟩
    rw [hentries, PyValue.set, PyValue.set] at hread
    refine ⟨⟨t.turnId, t.sessionId, t.index, t.question, t.sql, some { r with rows := [], rowsOmitted := true },
      status⟩, ?_, ?_⟩
    · simp only [List.map_cons, List.map_nil, hentries]
      simp [omitRows, PyValue.get, PyValue.set, setEntry, modelValidate, field, List.lookup_cons, hsql, hstatus,
        jsonLoads, hread]
    · rw [AskedTurn.outline, AskedTurn.outline, hres]
      rfl

theorem jsonDumpsItems_str (xs : List String) :
    jsonDumpsItems (xs.map .str) = some (xs.map .str) := by
  induction xs with
  | nil => rfl
  | cons x rest ih =>
    rw [List.map_cons, jsonDumpsItems, ih]
    rfl

theorem mapM_asStr (xs : List String) : (jsonLoadsItems (xs.map .str)).mapM asStr = some xs := by
  induction xs with
  | nil => rfl
  | cons x rest ih =>
    rw [List.map_cons, jsonLoadsItems, List.mapM_cons, ih]
    rfl

/-- The members of a stored memory, but for the filters. -/
def AskedMemory.storedMembers (m : AskedMemory) (filters : JsonDoc) : List (String × JsonDoc) :=
  [("filters", filters), ("result_columns", .arr (m.resultColumns.map .str)), ("sql", .orNull (m.sql.map .str)),
    ("injected_top", .orNull (m.injectedTop.map .int)), ("row_count", .int m.rowCount)] ++
  (m.datasource.map fun source => ("datasource", JsonDoc.str source)).toList

theorem jsonDumpsEntries_memoryPayload (m : AskedMemory) :
    jsonDumpsEntries (memoryPayload (some m)) = (jsonDumps (.ofDict m.filters)).map m.storedMembers := by
  have hsql : jsonDumps (.orNone (m.sql.map .str)) = some (.orNull (m.sql.map .str)) := by cases m.sql <;> rfl
  have htop : jsonDumps (.orNone (m.injectedTop.map .int)) = some (.orNull (m.injectedTop.map .int)) := by
    cases m.injectedTop <;> rfl
  rw [memoryPayload]
  cases hfilters : jsonDumps (.ofDict m.filters) with
  | none => simp [jsonDumpsEntries, hfilters, PyKey.memberName]
  | some doc =>
    cases hsource : m.datasource with
    | none =>
      simp [jsonDumpsEntries, jsonDumps, PyKey.memberName, hfilters, hsql, htop, jsonDumpsItems_str,
        AskedMemory.storedMembers, hsource]
    | some source =>
      simp [jsonDumpsEntries, jsonDumps, PyKey.memberName, hfilters, hsql, htop, jsonDumpsItems_str,
        AskedMemory.storedMembers, hsource]

/-- **A stored memory reads back as the memory** but for its filters, which are what `json` makes of them. -/
theorem loadedMemory_memoryJson {doc : JsonDoc} (h : jsonDumps (.dict (memoryPayload (some m))) = some doc) :
    ∃ filtersDoc filters, jsonDumps (.ofDict m.filters) = some filtersDoc ∧
      jsonLoads filtersDoc = .ofDict filters ∧ loadedMemory doc = some { m with filters := filters } := by
  rw [jsonDumps, jsonDumpsEntries_memoryPayload, Option.map_map] at h
  obtain ⟨filtersDoc, hfilters, rfl⟩ := Option.map_eq_some_iff.mp h
  rw [PyValue.ofDict, jsonDumps] at hfilters
  obtain ⟨members, -, rfl⟩ := Option.map_eq_some_iff.mp hfilters
  have hread : jsonLoads (.obj members) = .ofDict (.ofPairs (jsonLoadsEntries members)) := by rw [jsonLoads]
  refine ⟨_, _, hfilters, hread, ?_⟩
  have hkeys : ((m.storedMembers (.obj members)).map (·.1)).Nodup := by
    rw [AskedMemory.storedMembers]
    cases m.datasource with
    | none => exact show ["filters", "result_columns", "sql", "injected_top", "row_count"].Nodup by decide
    | some source =>
      exact show ["filters", "result_columns", "sql", "injected_top", "row_count", "datasource"].Nodup by decide
  have hsql : asOption asStr (jsonLoads (.orNull (m.sql.map .str))) = some m.sql := by cases m.sql <;> rfl
  have htop : asOption asInt (jsonLoads (.orNull (m.injectedTop.map .int))) = some m.injectedTop := by
    cases m.injectedTop <;> rfl
  rw [Function.comp_apply, loadedMemory, jsonLoads_obj hkeys, AskedMemory.storedMembers]
  clear h hfilters hkeys
  obtain ⟨filters, resultColumns, sql, injectedTop, rowCount, datasource⟩ := m
  cases datasource with
  | none => simp [field, List.lookup_cons, hsql, htop, jsonLoads, mapM_asStr]
  | some source => simp [field, List.lookup_cons, hsql, htop, jsonLoads, mapM_asStr]

end Reading

/-! ## When a save succeeds -/

section Saving

variable {t : AskedTurn} {m : AskedMemory}

theorem encodableEntries_iff {entries : List (PyKey × PyValue)} :
    EncodableEntries entries ↔ ∀ e ∈ entries, (∀ type, e.1 ≠ .other type) ∧ Encodable e.2 := by
  induction entries with
  | nil => exact ⟨fun _ _ h => absurd h List.not_mem_nil, fun _ => trivial⟩
  | cons e rest ih =>
    obtain ⟨k, v⟩ := e
    rw [EncodableEntries, ih, List.forall_mem_cons, and_assoc]

/-- A `dict` with string keys has a JSON form when its values have. -/
theorem encodable_ofDict {d : OrderedDict String PyValue} :
    Encodable (.ofDict d) ↔ ∀ e ∈ d.entries, Encodable e.2 := by
  rw [PyValue.ofDict, Encodable, encodableEntries_iff, List.forall_mem_map]
  exact forall₂_congr fun e _ => and_iff_right fun _ => PyKey.noConfusion

/-- **Every cell of the turn's result has a JSON form.** -/
def AskedTurn.CellsEncodable (t : AskedTurn) : Prop :=
  ∀ r, t.result = some r → ∀ row ∈ r.rows, ∀ cell ∈ row.entries, Encodable cell.2

/-- Every part of the model's status has one. -/
def AskedTurn.StatusEncodable (t : AskedTurn) : Prop :=
  ∀ status, t.llm = some status → ∀ e ∈ status.entries, Encodable e.2

theorem mapM_isSome_iff {α β : Type*} {f : α → Option β} {l : List α} :
    (l.mapM f).isSome ↔ ∀ a ∈ l, (f a).isSome := by
  induction l with
  | nil => simp
  | cons a rest ih =>
    rw [List.mapM_cons, List.forall_mem_cons, ← ih]
    cases f a <;> cases rest.mapM f <;> simp

theorem resultDoc_isSome_iff : (resultDoc t.result).isSome ↔ t.CellsEncodable := by
  unfold AskedTurn.CellsEncodable
  cases t.result with
  | none => simp [resultDoc]
  | some r =>
    have hdump : r.modelDump.isSome ↔ ∀ row ∈ r.rows, (pydanticJson (.ofDict row)).isSome := by
      rw [AskedResult.modelDump, ← mapM_isSome_iff]
      cases r.rows.mapM fun row => pydanticJson (.ofDict row) <;> simp
    rw [resultDoc, Option.isSome_map, hdump]
    simp only [pydanticJson_isSome_iff, encodable_ofDict, Option.some.injEq, forall_eq']

theorem llmDoc_isSome_iff : (llmDoc t.llm).isSome ↔ t.StatusEncodable := by
  unfold AskedTurn.StatusEncodable
  cases t.llm with
  | none => simp [llmDoc]
  | some status =>
    rw [llmDoc, pydanticJson_isSome_iff, encodable_ofDict]
    simp

/-- **When a save succeeds**: every cell has a JSON form, although no cell is stored. -/
theorem savedRow_isSome_iff : (savedRow t (some m)).isSome ↔
    t.CellsEncodable ∧ t.StatusEncodable ∧ (jsonDumps (.ofDict m.filters)).isSome := by
  rw [← resultDoc_isSome_iff, ← llmDoc_isSome_iff, savedRow, AskedTurn.turnJson, jsonDumps,
    jsonDumpsEntries_memoryPayload]
  cases resultDoc t.result <;> cases llmDoc t.llm <;> cases jsonDumps (.ofDict m.filters) <;> simp

/-- **The rows are not in the payload**: two turns that differ only in them are saved alike. -/
theorem savedRow_withRows {mem : Option AskedMemory} {rows : List (OrderedDict String PyValue)}
    {row row' : StoredTurn} (h : savedRow t mem = some row) (h' : savedRow (t.withRows rows) mem = some row') :
    row = row' := by
  obtain ⟨doc, hdoc, h⟩ := Option.bind_eq_some_iff.mp h
  obtain ⟨memDoc, hmem, h⟩ := Option.bind_eq_some_iff.mp h
  obtain ⟨doc', hdoc', h'⟩ := Option.bind_eq_some_iff.mp h'
  obtain ⟨memDoc', hmem', h'⟩ := Option.bind_eq_some_iff.mp h'
  cases h
  cases h'
  cases hmem.symm.trans hmem'
  obtain ⟨result, llm, hresult, hllm, rfl⟩ := turnJson_eq_some hdoc
  obtain ⟨result', llm', hresult', hllm', rfl⟩ := turnJson_eq_some hdoc'
  cases hllm.symm.trans hllm'
  have heq : result = result' := by
    rw [AskedTurn.withRows] at hresult'
    cases hres : t.result with
    | none =>
      rw [hres] at hresult hresult'
      cases hresult
      cases hresult'
      rfl
    | some r =>
      rw [hres] at hresult hresult'
      rw [resultDoc_eq_some hresult, resultDoc_eq_some hresult']
      rfl
  rw [heq]
  rfl

end Saving

end LocalSqlAgent
