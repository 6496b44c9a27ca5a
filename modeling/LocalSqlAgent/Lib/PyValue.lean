import LocalSqlAgent.Lib.OrderedDict

/-! # Python values and JSON documents

The conversions of Python's `json`, between the values a program holds and the documents it writes. A
document is taken as its structure: its text says no more and no less.

* **`jsonDumps`**: the document of a value, `none` where `json.dumps` raises.
* **`jsonLoads`**: the value of a document.
* **`isJson_iff`**: the values a document gives back, in value and type: no tuple, no key but a string,
  nothing that a document has no form for. -/

namespace LocalSqlAgent

/-- A key of a `dict`. -/
inductive PyKey where
  | none
  | bool (b : Bool)
  | int (n : Int)
  /-- A `float`, by its `repr`. -/
  | float (repr : String)
  | str (s : String)
  /-- A key of any other type. -/
  | other (type : String)
  deriving DecidableEq, Repr

/-- A value, as far as its types are told apart. -/
inductive PyValue where
  | none
  | bool (b : Bool)
  | int (n : Int)
  /-- A `float`, by its `repr`. -/
  | float (repr : String)
  | str (s : String)
  | bytes (b : ByteArray)
  /-- A value of a type that has a standard text: `Decimal`, `date`, `datetime`, `time`, `timedelta`,
  `UUID`. -/
  | standard (type text : String)
  | list (items : List PyValue)
  | tuple (items : List PyValue)
  /-- A `dict`, its keys in order. -/
  | dict (entries : List (PyKey × PyValue))
  /-- A value of any other type. -/
  | object (type : String)

/-- A JSON document. -/
inductive JsonDoc where
  | null
  | bool (b : Bool)
  | int (n : Int)
  | float (repr : String)
  | str (s : String)
  | arr (items : List JsonDoc)
  | obj (entries : List (String × JsonDoc))

/-! ## `json.dumps` -/

/-- The member name of a key; `none` is the `TypeError`. -/
def PyKey.memberName : PyKey → Option String
  | .none => some "null"
  | .bool b => some (if b then "true" else "false")
  | .int n => some (toString n)
  | .float repr => some repr
  | .str s => some s
  | .other _ => Option.none

mutual

/-- **`json.dumps`**; `none` is the `TypeError` over a value that is not JSON serializable. -/
def jsonDumps : PyValue → Option JsonDoc
  | .none => some .null
  | .bool b => some (.bool b)
  | .int n => some (.int n)
  | .float repr => some (.float repr)
  | .str s => some (.str s)
  | .list items => (jsonDumpsItems items).map .arr
  | .tuple items => (jsonDumpsItems items).map .arr
  | .dict entries => (jsonDumpsEntries entries).map .obj
  | .bytes _ => Option.none
  | .standard _ _ => Option.none
  | .object _ => Option.none

/-- The elements of an array. -/
def jsonDumpsItems : List PyValue → Option (List JsonDoc)
  | [] => some []
  | v :: rest => do
    let doc ← jsonDumps v
    let docs ← jsonDumpsItems rest
    return doc :: docs

/-- The members of an object. -/
def jsonDumpsEntries : List (PyKey × PyValue) → Option (List (String × JsonDoc))
  | [] => some []
  | (k, v) :: rest => do
    let name ← k.memberName
    let doc ← jsonDumps v
    let docs ← jsonDumpsEntries rest
    return (name, doc) :: docs

end

/-! ## `json.loads` -/

/-- A `dict` with string keys: assignments in order. -/
def PyValue.ofDict (d : OrderedDict String PyValue) : PyValue := .dict (d.entries.map fun e => (.str e.1, e.2))

mutual

/-- **`json.loads`**. -/
def jsonLoads : JsonDoc → PyValue
  | .null => .none
  | .bool b => .bool b
  | .int n => .int n
  | .float repr => .float repr
  | .str s => .str s
  | .arr items => .list (jsonLoadsItems items)
  | .obj entries => .ofDict (OrderedDict.ofPairs (jsonLoadsEntries entries))

/-- The elements of a list. -/
def jsonLoadsItems : List JsonDoc → List PyValue
  | [] => []
  | doc :: rest => jsonLoads doc :: jsonLoadsItems rest

/-- The members of an object, in the order they are assigned. -/
def jsonLoadsEntries : List (String × JsonDoc) → List (String × PyValue)
  | [] => []
  | (k, doc) :: rest => (k, jsonLoads doc) :: jsonLoadsEntries rest

end

theorem jsonLoadsEntries_eq_map (entries : List (String × JsonDoc)) :
    jsonLoadsEntries entries = entries.map fun e => (e.1, jsonLoads e.2) := by
  induction entries with
  | nil => rfl
  | cons e rest ih => rw [jsonLoadsEntries, List.map_cons, ih]

/-- **An object without a repeated member name** is the `dict` of its members. -/
theorem jsonLoads_obj {entries : List (String × JsonDoc)} (h : (entries.map (·.1)).Nodup) :
    jsonLoads (.obj entries) = .dict (entries.map fun e => (.str e.1, jsonLoads e.2)) := by
  have hnodup : ((entries.map fun e => (e.1, jsonLoads e.2)).map (·.1)).Nodup := by
    rw [List.map_map]
    exact h
  rw [jsonLoads, jsonLoadsEntries_eq_map, PyValue.ofDict, OrderedDict.entries_ofPairs hnodup, List.map_map,
    List.map_map]
  rfl

/-! ## What a document gives back -/

mutual

/-- **A value JSON holds**: what `json.loads` can return. -/
def IsJson : PyValue → Prop
  | .none => True
  | .bool _ => True
  | .int _ => True
  | .float _ => True
  | .str _ => True
  | .list items => IsJsonItems items
  | .dict entries => (entries.map (·.1)).Nodup ∧ IsJsonEntries entries
  | .tuple _ => False
  | .bytes _ => False
  | .standard _ _ => False
  | .object _ => False

/-- JSON holds every element. -/
def IsJsonItems : List PyValue → Prop
  | [] => True
  | v :: rest => IsJson v ∧ IsJsonItems rest

/-- The keys are strings and JSON holds every value. -/
def IsJsonEntries : List (PyKey × PyValue) → Prop
  | [] => True
  | (k, v) :: rest => (∃ s, k = .str s) ∧ IsJson v ∧ IsJsonEntries rest

end

mutual

/-- **What is read back is what was written.** -/
theorem jsonLoads_of_isJson : ∀ {v : PyValue}, IsJson v → ∃ doc, jsonDumps v = some doc ∧ jsonLoads doc = v
  | .none, _ => ⟨.null, rfl, rfl⟩
  | .bool b, _ => ⟨.bool b, rfl, rfl⟩
  | .int n, _ => ⟨.int n, rfl, rfl⟩
  | .float repr, _ => ⟨.float repr, rfl, rfl⟩
  | .str s, _ => ⟨.str s, rfl, rfl⟩
  | .list items, h => by
    rw [IsJson] at h
    obtain ⟨docs, hdumps, hloads⟩ := jsonLoadsItems_of_isJson h
    exact ⟨.arr docs, by rw [jsonDumps, hdumps, Option.map_some], by rw [jsonLoads, hloads]⟩
  | .dict entries, h => by
    rw [IsJson] at h
    obtain ⟨docs, hdumps, hloads⟩ := jsonLoadsEntries_of_isJson h.2
    refine ⟨.obj docs, by rw [jsonDumps, hdumps, Option.map_some], ?_⟩
    have hkeys : docs.map (fun e => PyKey.str e.1) = entries.map (·.1) := by
      rw [← hloads, List.map_map]
      rfl
    have hnodup : (docs.map (·.1)).Nodup := by
      have hmap : (docs.map (·.1)).map PyKey.str = entries.map (·.1) := by rw [List.map_map, ← hkeys]; rfl
      exact List.Nodup.of_map _ (hmap ▸ h.1)
    rw [jsonLoads_obj hnodup, hloads]
  | .tuple _, h => by cases h
  | .bytes _, h => by cases h
  | .standard _ _, h => by cases h
  | .object _, h => by cases h

theorem jsonLoadsItems_of_isJson : ∀ {items : List PyValue}, IsJsonItems items →
    ∃ docs, jsonDumpsItems items = some docs ∧ jsonLoadsItems docs = items
  | [], _ => ⟨[], rfl, rfl⟩
  | v :: rest, h => by
    rw [IsJsonItems] at h
    obtain ⟨doc, hdumps, hloads⟩ := jsonLoads_of_isJson h.1
    obtain ⟨docs, hrest, hloadsRest⟩ := jsonLoadsItems_of_isJson h.2
    refine ⟨doc :: docs, ?_, by rw [jsonLoadsItems, hloads, hloadsRest]⟩
    rw [jsonDumpsItems, hdumps, hrest]
    rfl

theorem jsonLoadsEntries_of_isJson : ∀ {entries : List (PyKey × PyValue)}, IsJsonEntries entries →
    ∃ docs, jsonDumpsEntries entries = some docs ∧
      docs.map (fun e => (PyKey.str e.1, jsonLoads e.2)) = entries
  | [], _ => ⟨[], rfl, rfl⟩
  | (k, v) :: rest, h => by
    rw [IsJsonEntries] at h
    obtain ⟨⟨s, rfl⟩, hv, hrest⟩ := h
    obtain ⟨doc, hdumps, hloads⟩ := jsonLoads_of_isJson hv
    obtain ⟨docs, hdocs, hloadsRest⟩ := jsonLoadsEntries_of_isJson hrest
    refine ⟨(s, doc) :: docs, ?_, by rw [List.map_cons, hloads, hloadsRest]⟩
    rw [jsonDumpsEntries, hdumps, hdocs]
    rfl

end

theorem isJsonEntries_iff {entries : List (PyKey × PyValue)} :
    IsJsonEntries entries ↔ ∀ e ∈ entries, (∃ s, e.1 = .str s) ∧ IsJson e.2 := by
  induction entries with
  | nil => exact ⟨fun _ _ h => absurd h List.not_mem_nil, fun _ => trivial⟩
  | cons e rest ih =>
    obtain ⟨k, v⟩ := e
    rw [IsJsonEntries, ih, List.forall_mem_cons, and_assoc]

/-- The keys of a dictionary do not repeat as keys of a `dict`. -/
theorem nodup_keys_ofDict (d : OrderedDict String PyValue) :
    ((d.entries.map fun e => (PyKey.str e.1, e.2)).map (·.1)).Nodup := by
  have hmap : (d.entries.map fun e => (PyKey.str e.1, e.2)).map (·.1) = d.keys.map PyKey.str := by
    rw [List.map_map, AList.keys, List.keys, List.map_map]
    rfl
  rw [hmap]
  exact d.keys_nodup.map fun _ _ h => PyKey.str.inj h

/-- JSON holds a `dict` with string keys exactly when it holds its values. -/
theorem isJson_ofDict {d : OrderedDict String PyValue} :
    IsJson (.ofDict d) ↔ ∀ e ∈ d.entries, IsJson e.2 := by
  rw [PyValue.ofDict, IsJson, isJsonEntries_iff]
  constructor
  · rintro ⟨-, h⟩ e he
    exact (h _ (List.mem_map_of_mem he)).2
  · intro h
    refine ⟨nodup_keys_ofDict d, fun e he => ?_⟩
    obtain ⟨x, hx, rfl⟩ := List.mem_map.mp he
    exact ⟨⟨_, rfl⟩, h x hx⟩

mutual

/-- **JSON holds what is read.** -/
theorem isJson_jsonLoads : ∀ doc : JsonDoc, IsJson (jsonLoads doc)
  | .null => trivial
  | .bool _ => trivial
  | .int _ => trivial
  | .float _ => trivial
  | .str _ => trivial
  | .arr items => by
    rw [jsonLoads, IsJson]
    exact isJsonItems_jsonLoads items
  | .obj entries => by
    rw [jsonLoads, isJson_ofDict]
    intro e he
    obtain ⟨p, hp, rfl⟩ := OrderedDict.exists_of_mem_ofPairs he
    exact isJson_jsonLoadsEntries entries p hp

theorem isJsonItems_jsonLoads : ∀ items : List JsonDoc, IsJsonItems (jsonLoadsItems items)
  | [] => trivial
  | doc :: rest => by
    rw [jsonLoadsItems, IsJsonItems]
    exact ⟨isJson_jsonLoads doc, isJsonItems_jsonLoads rest⟩

theorem isJson_jsonLoadsEntries : ∀ entries : List (String × JsonDoc),
    ∀ p ∈ jsonLoadsEntries entries, IsJson p.2
  | [], _, h => absurd h List.not_mem_nil
  | (_, doc) :: rest, p, h => by
    rw [jsonLoadsEntries] at h
    obtain rfl | h := List.mem_cons.mp h
    · exact isJson_jsonLoads doc
    · exact isJson_jsonLoadsEntries rest p h

end

/-- **The values that survive** being written and read are those JSON holds. -/
theorem isJson_iff {v : PyValue} : IsJson v ↔ ∃ doc, jsonDumps v = some doc ∧ jsonLoads doc = v := by
  constructor
  · exact jsonLoads_of_isJson
  · rintro ⟨doc, -, rfl⟩
    exact isJson_jsonLoads doc

end LocalSqlAgent
