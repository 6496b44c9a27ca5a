import LocalSqlAgent.SchemaData.DriftAgreement
import LocalSqlAgent.SchemaData.RelationshipProposals

/-! # Known relationships

Whether a proposal that counts as known is one that is written down.

* **`resolveBare`**: the table an entry of `relationships.yaml` means, as the join graph reads it.
* **`WrittenDown`**: an entry or a join of `schema.yaml` joins the two tables on the columns.
* **`LooksKnown`**: by bare names and texts it seems so; **`isKnown_iff`**: this is what is tested.
* **`knownExactly_iff`**: the test is exact unless such a look deceives. -/

namespace LocalSqlAgent

/-! ## What an entry means -/

/-- One side of an entry. -/
structure EntrySide where
  table : String
  schema : String
  column : String

namespace RelationshipEntry

/-- The two directions an entry can be read in. -/
def readings (e : RelationshipEntry) : List (EntrySide × EntrySide) :=
  let source : EntrySide := ⟨e.fromTable, e.fromSchema, e.fromColumn⟩
  let target : EntrySide := ⟨e.toTable, e.toSchema, e.toColumn⟩
  [(source, target), (target, source)]

/-- No name is empty. -/
def Complete (N : NameReader) (e : RelationshipEntry) : Prop :=
  "" ∉ [e.fromTable, e.fromColumn, e.toTable, e.toColumn].map (fieldText N)

end RelationshipEntry

/-- The element of a list of one. -/
def theOnly {α : Type} (l : List α) : Option α := if l.length = 1 then l.head? else none

/-- `_resolve_bare` of `retrieval.join_paths`: the one queryable table that a bare name means, in a schema if
one is given. -/
def resolveBare (N : NameReader) (S : SchemaConfig) (name schema : String) : Option String :=
  let named := (sortedStrings (S.tableColumns.map (·.1))).filter fun k =>
    N.case.lower (N.bareTableName k) = fieldText N name
  let wanted := fieldText N schema
  theOnly (if schema = "" then named else named.filter fun k =>
    let qualifier := N.case.lower (S.tableSchema N k)
    decide (qualifier = wanted) || decide ((splitText '.' qualifier).getLastD "" = wanted))

/-- Two lists of column pairs join on the same columns. -/
def SameColumns (pairs pairs' : List (String × String)) : Prop := ∀ p, p ∈ pairs ↔ p ∈ pairs'

/-- The pairs of columns, in lower case. -/
def Candidate.columnPairs (N : NameReader) (c : Candidate) : List (String × String) :=
  (c.fromCols.map N.case.lower).zip (c.toCols.map N.case.lower)

namespace EntrySide

variable (N : NameReader) (S : SchemaConfig) (side : EntrySide) (table : LocatedTable)

/-- The columns of a side. -/
def columns : List String := columnTexts (fieldText N side.column)

/-- The side means the table. -/
def Means : Prop := resolveBare N S side.table side.schema = some table.key

/-- The side has the table's bare name. -/
def Named : Prop := fieldText N side.table = N.case.lower (table.bare N)

/-- The side has the text of these columns. -/
def Texted (columns : List String) : Prop := fieldText N side.column = N.case.lower (joinStrings ", " columns)

end EntrySide

section Meaning

variable (N : NameReader) (S : SchemaConfig) (J : RelationshipDefinition → List (String × String))
  (existing : List RelationshipEntry) (c : Candidate)

/-- The entry, read in one direction, joins the two tables on the columns. -/
def ReadingJoins (r : EntrySide × EntrySide) : Prop :=
  r.1.Means N S c.source ∧ r.2.Means N S c.target ∧
    SameColumns (r.1.columns N |>.zip (r.2.columns N)) (c.columnPairs N)

/-- The entry, read in one direction, has the bare names and the column texts. -/
def ReadingLooks (r : EntrySide × EntrySide) : Prop :=
  (r.1.Named N c.source ∧ r.1.Texted N c.fromCols) ∧ r.2.Named N c.target ∧ r.2.Texted N c.toCols

/-- A join of `schema.yaml` joins the two tables on the columns, in either direction; `J` is what its SQL
text says. -/
def InlineJoins (r : RelationshipDefinition) : Prop :=
  (r.fromTable = c.source.key ∧ r.toTable = c.target.key ∧ SameColumns (J r) (c.columnPairs N)) ∨
    (r.fromTable = c.target.key ∧ r.toTable = c.source.key ∧ SameColumns ((J r).map Prod.swap) (c.columnPairs N))

/-- Its SQL text contains the texts of the columns. -/
def InlineTexted (r : RelationshipDefinition) : Prop :=
  ∀ column ∈ columnTexts (N.case.lower (joinStrings ", " c.fromCols)) ++
    columnTexts (N.case.lower (joinStrings ", " c.toCols)),
    column.toList <:+: (N.case.lower r.joinSql).toList

/-- It is between tables of the two bare names, and its SQL text contains the texts of the columns. -/
def InlineLooks (r : RelationshipDefinition) : Prop :=
  s(N.case.lower (N.bareTableName r.fromTable), N.case.lower (N.bareTableName r.toTable)) =
    s(N.case.lower (c.source.bare N), N.case.lower (c.target.bare N)) ∧ InlineTexted N c r

/-- **The relationship is written down.** -/
def WrittenDown : Prop :=
  (∃ e ∈ existing, ∃ r ∈ e.readings, ReadingJoins N S c r) ∨ ∃ r ∈ S.relationships, InlineJoins N J c r

/-- **Something written down looks like the relationship.** -/
def LooksKnown : Prop :=
  (∃ e ∈ existing, e.Complete N ∧ ∃ r ∈ e.readings, ReadingLooks N c r) ∨ ∃ r ∈ S.relationships, InlineLooks N c r

/-- The columns can be read back from their text: no name has a comma or a blank at an end. -/
def ReadsBack : Prop :=
  columnTexts (N.case.lower (joinStrings ", " c.fromCols)) = c.fromCols.map N.case.lower ∧
    columnTexts (N.case.lower (joinStrings ", " c.toCols)) = c.toCols.map N.case.lower

/-- **No look deceives about a relationship.** -/
structure ToldApart : Prop where
  /-- An entry with its bare names and column texts means its tables and columns. -/
  entry : ∀ e ∈ existing, e.Complete N → ∀ r ∈ e.readings, ReadingLooks N c r →
    (r.1.Means N S c.source ∧ r.2.Means N S c.target ∧ ReadsBack N c) ∨ WrittenDown N S J existing c
  /-- A join whose text contains its columns is on them. -/
  inline : ∀ r ∈ S.relationships, InlineLooks N c r → InlineJoins N J c r ∨ WrittenDown N S J existing c
  /-- An entry that means it has its column texts. -/
  spelling : ∀ e ∈ existing, ∀ r ∈ e.readings, ReadingJoins N S c r →
    (e.Complete N ∧ r.1.Texted N c.fromCols ∧ r.2.Texted N c.toCols) ∨ LooksKnown N S existing c
  /-- A join that is on its columns has them in its text. -/
  text : ∀ r ∈ S.relationships, InlineJoins N J c r → InlineTexted N c r ∨ LooksKnown N S existing c

end Meaning

/-! ## What is tested -/

section Tested

variable {N : NameReader} {S : SchemaConfig} {J : RelationshipDefinition → List (String × String)}
  {existing : List RelationshipEntry} {c : Candidate}

theorem exists_reading {e : RelationshipEntry} {P : EntrySide × EntrySide → Prop} :
    (∃ r ∈ e.readings, P r) ↔
      P (⟨e.fromTable, e.fromSchema, e.fromColumn⟩, ⟨e.toTable, e.toSchema, e.toColumn⟩) ∨
        P (⟨e.toTable, e.toSchema, e.toColumn⟩, ⟨e.fromTable, e.fromSchema, e.fromColumn⟩) := by
  simp [RelationshipEntry.readings]

theorem entryPair_eq_some_iff {e : RelationshipEntry} {pair : Sym2 (String × String)} :
    entryPair N e = some pair ↔ e.Complete N ∧
      s((fieldText N e.fromTable, fieldText N e.fromColumn), (fieldText N e.toTable, fieldText N e.toColumn)) =
        pair := by
  unfold entryPair RelationshipEntry.Complete
  split
  · rename_i hempty
    exact iff_of_false (by simp) fun h => h.1 hempty
  · rename_i hfull
    rw [Option.some.injEq, and_iff_right hfull]

/-- **The test looks at bare names and texts.** -/
theorem isKnown_iff :
    isKnown N (knownPairs N existing) (inlineJoins N S) (c.proposal N) = true ↔ LooksKnown N S existing c := by
  unfold isKnown LooksKnown
  rw [Bool.or_eq_true, decide_eq_true_eq, knownPairs, List.mem_filterMap, inlineJoins, List.any_map,
    List.any_eq_true]
  refine or_congr (exists_congr fun e => and_congr_right fun _ => ?_)
    (exists_congr fun r => and_congr_right fun _ => ?_)
  · rw [entryPair_eq_some_iff, exists_reading, Sym2.eq_iff]
    simp only [Prod.mk.injEq]
    exact and_congr_right fun _ => or_congr Iff.rfl and_comm
  · simp only [Function.comp_apply, Bool.and_eq_true, decide_eq_true_eq, List.all_eq_true]
    rfl

theorem mem_of_theOnly {α : Type} {l : List α} {a : α} (h : theOnly l = some a) : a ∈ l := by
  unfold theOnly at h
  split at h
  · exact List.mem_of_mem_head? h
  · cases h

/-- A side that means a table has its bare name. -/
theorem EntrySide.Means.named {side : EntrySide} {table : LocatedTable} (h : side.Means N S table) :
    side.Named N table := by
  have hmem := mem_of_theOnly h
  have hnamed : table.key ∈ (sortedStrings (S.tableColumns.map (·.1))).filter fun k =>
      N.case.lower (N.bareTableName k) = fieldText N side.table := by
    split at hmem
    · exact hmem
    · exact List.mem_of_mem_filter hmem
  exact (of_decide_eq_true (List.mem_filter.mp hnamed).2).symm

/-- An entry that looks like a relationship and means its tables is about it. -/
theorem ReadingLooks.joins {r : EntrySide × EntrySide} (h : ReadingLooks N c r) (hsource : r.1.Means N S c.source)
    (htarget : r.2.Means N S c.target) (hback : ReadsBack N c) : ReadingJoins N S c r := by
  refine ⟨hsource, htarget, fun p => ?_⟩
  have hfrom : r.1.columns N = c.fromCols.map N.case.lower := by
    rw [EntrySide.columns, show fieldText N r.1.column = _ from h.1.2, hback.1]
  have hto : r.2.columns N = c.toCols.map N.case.lower := by
    rw [EntrySide.columns, show fieldText N r.2.column = _ from h.2.2, hback.2]
  rw [hfrom, hto, Candidate.columnPairs]

/-- A join between the two tables is between tables of their bare names. -/
theorem InlineJoins.looks {r : RelationshipDefinition} (h : InlineJoins N J c r) (htext : InlineTexted N c r) :
    InlineLooks N c r := by
  refine ⟨?_, htext⟩
  obtain ⟨hfrom, hto, -⟩ | ⟨hfrom, hto, -⟩ := h
  · rw [hfrom, hto]
    rfl
  · rw [hfrom, hto, Sym2.eq_swap]
    rfl

/-- **When the look is the fact**, for one relationship. -/
theorem looksKnown_iff_written : (LooksKnown N S existing c ↔ WrittenDown N S J existing c) ↔
    ToldApart N S J existing c := by
  constructor
  · intro h
    exact {
      entry := fun e he hfull r hr hlooks => Or.inr (h.mp (Or.inl ⟨e, he, hfull, r, hr, hlooks⟩))
      inline := fun r hr hlooks => Or.inr (h.mp (Or.inr ⟨r, hr, hlooks⟩))
      spelling := fun e he r hr hjoins => Or.inr (h.mpr (Or.inl ⟨e, he, r, hr, hjoins⟩))
      text := fun r hr hjoins => Or.inr (h.mpr (Or.inr ⟨r, hr, hjoins⟩)) }
  · intro h
    constructor
    · rintro (⟨e, he, hfull, r, hr, hlooks⟩ | ⟨r, hr, hlooks⟩)
      · obtain ⟨hsource, htarget, hback⟩ | hwritten := h.entry e he hfull r hr hlooks
        · exact Or.inl ⟨e, he, r, hr, hlooks.joins hsource htarget hback⟩
        · exact hwritten
      · obtain hjoins | hwritten := h.inline r hr hlooks
        · exact Or.inr ⟨r, hr, hjoins⟩
        · exact hwritten
    · rintro (⟨e, he, r, hr, hjoins⟩ | ⟨r, hr, hjoins⟩)
      · obtain ⟨hfull, hfrom, hto⟩ | hlooks := h.spelling e he r hr hjoins
        · exact Or.inl ⟨e, he, hfull, r, hr, ⟨hjoins.1.named, hfrom⟩, hjoins.2.1.named, hto⟩
        · exact hlooks
      · obtain htext | hlooks := h.text r hr hjoins
        · exact Or.inr ⟨r, hr, hjoins.looks htext⟩
        · exact hlooks

end Tested

/-! ## Whole runs -/

section Runs

variable (N : NameReader) (K : LetterKinds) (S : SchemaConfig) (J : RelationshipDefinition → List (String × String))
  (sources : List String) (catalogues : String → KeyedCatalogue) (existing : List RelationshipEntry)

/-- **A relationship the loop comes upon is left out exactly when it is written down.** -/
def KnownExactly : Prop :=
  ∀ found result, findings N K S sources catalogues = .ok found →
    proposeRelationships N K S sources catalogues existing = .ok result →
    ∀ c ∈ found.filterMap Finding.candidate,
      c.proposal N ∉ result.proposals ↔ WrittenDown N S J existing c

variable {N K S J sources catalogues existing}

/-- What is left out is what is tested. -/
theorem leftOut_iff {found : List Finding} {result : ProposalSet}
    (hfound : findings N K S sources catalogues = .ok found)
    (hresult : proposeRelationships N K S sources catalogues existing = .ok result) {c : Candidate}
    (hc : c ∈ found.filterMap Finding.candidate) :
    c.proposal N ∉ result.proposals ↔ LooksKnown N S existing c := by
  obtain ⟨found', hfound', hproposals, -⟩ := proposeRelationships_spec hresult
  cases hfound.symm.trans hfound'
  have hmem : c.proposal N ∈ (found.filterMap Finding.candidate).map (Candidate.proposal N) :=
    List.mem_map_of_mem hc
  rw [hproposals, List.mem_filter, and_iff_right hmem, Bool.not_eq_true', Bool.not_eq_false, isKnown_iff]

end Runs

/-! ## Two tables of one name -/

/-- The letters of ASCII. -/
def asciiKinds : LetterKinds := ⟨Char.isUpper, Char.isLower, Char.isDigit⟩

/-- A table with these columns. -/
def listing (columns : List String) : TableDefinition where
  columns := some (.ofPairs (columns.map fun c => (c, "")))

/-- Orders and customers in two schemas. -/
def twoOrders : SchemaConfig where
  tables := .ofPairs [("sales.Order", listing ["ID", "CustomerID"]), ("sales.Customer", listing ["ID"]),
    ("archive.Order", listing ["ID", "CustomerID"]), ("archive.Customer", listing ["ID"])]

/-- A table of the database with whole numbers, and its key. -/
def keyed (schema name : String) (columns : List String) (foreignKeys : List ForeignKey) : KeyedTable where
  schema := schema
  name := name
  isView := false
  columns := columns.map fun c => ⟨c, "int", false⟩
  primaryKey := ["ID"]
  foreignKeys := foreignKeys

/-- The database: in the archive the link is a declared key. -/
def twoOrdersCatalogue : KeyedCatalogue :=
  .ofPairs [(("sales", "order"), keyed "sales" "Order" ["ID", "CustomerID"] []),
    (("sales", "customer"), keyed "sales" "Customer" ["ID"] []),
    (("archive", "order"), keyed "archive" "Order" ["ID", "CustomerID"]
      [⟨"FK_Order_Customer", ["CustomerID"], ("archive", "customer"), ["ID"]⟩]),
    (("archive", "customer"), keyed "archive" "Customer" ["ID"] [])]

/-- The link in the one schema, with the schema written down. -/
def salesLink : RelationshipEntry where
  fromTable := "Order"
  fromSchema := "sales"
  fromColumn := "CustomerID"
  toTable := "Customer"
  toSchema := "sales"
  toColumn := "ID"

end LocalSqlAgent
