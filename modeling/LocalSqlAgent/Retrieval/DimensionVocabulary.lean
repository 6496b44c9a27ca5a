import LocalSqlAgent.Security.ColumnPolicy

/-! # The dimension vocabulary

`retrieval.dimension_vocabulary`: the values of the small dimensions are cached for everyone, and a
question is searched for them. The columns a principal may not see are left out of the search, by a
comparison of this module's own: the raw entries in lower case, and the join-only columns.

* **`matchQuestionAgainstVocabulary`**: the search, over the columns `allowedColumns` leaves.
* **`RefusesColumn`**: what the guard refuses, by the policy it parses from the same entries.
* **`insensitive_iff`**: the values of refused columns never influence the result exactly when every one
  of them is left out; **`insensitive_and_agrees_iff`**: the two notions agree exactly when the entries
  read alike in lower case and in the guard's upper case. -/

namespace LocalSqlAgent

/-! ## The search -/

/-- The cached values of a column and whether they are fresh; `none` when it was never cached. -/
abbrev VocabularyCache := String → String → Option (List String × Bool)

/-- `Clarification`. -/
structure Clarification where
  field : String
  prompt : String
  options : List String
  deriving DecidableEq

/-- `VocabularyMatchResult`. -/
structure VocabularyMatchResult where
  filters : List (String × String) := []
  clarifications : List Clarification := []
  resolvedColumns : List String := []
  unavailableTables : List String := []
  tokenTierFilters : List (String × List String) := []
  deriving DecidableEq

/-- What the search reads of the deployment. -/
structure VocabularyConfig where
  /-- `normalize_for_matching`. -/
  normalize : String → String
  /-- `PREFETCH_COLUMNS.get`. -/
  prefetchColumns : String → Option (List String)
  /-- `dimension_vocabulary_token_fallback_enabled`. -/
  tokenFallback : Bool

/-- `MIN_MATCH_LENGTH`. -/
def minMatchLength : ℕ := 3

/-- `str.split()`. -/
def splitWords (text : String) : List String :=
  ((text.toList.splitOnP isPySpace).filter (· ≠ [])).map String.ofList

/-- The tokens of a normalised value that are long enough to match. -/
def valueTokens (normalized : String) : List String :=
  (splitWords normalized).filter fun tok => minMatchLength ≤ tok.length

/-- A value of the pool: normalised, as cached, and its column. -/
structure PoolValue where
  normalized : String
  raw : String
  column : String

namespace VocabularyConfig

variable (V : VocabularyConfig)

/-- A token is generic for a column: at least half of its values have it, and they are three or more. -/
def isGeneric (rawValues : List String) (tok : String) : Bool :=
  let occurrence := rawValues.countP fun raw => decide (tok ∈ valueTokens (V.normalize raw))
  decide (3 ≤ rawValues.length ∧ 0 < occurrence ∧ rawValues.length ≤ 2 * occurrence)

/-- `scores[raw]` and `distinctive_by_value[raw]`, kept when they are at least as good. -/
def recordScore (raw : String) (score : ℕ) (distinctive : List String) :
    List (String × ℕ × List String) → List (String × ℕ × List String)
  | [] => [(raw, score, distinctive)]
  | entry :: rest =>
    if entry.1 = raw then (if entry.2.1 < score then (raw, score, distinctive) else entry) :: rest
    else entry :: recordScore raw score distinctive rest

/-- `_token_tier_winners`. -/
def tokenTierWinners (pool : List PoolValue) (columnValues : List (String × List String)) (question : String) :
    List String × Option (List String) :=
  let questionTokens := splitWords question
  let scores := pool.foldl (fun scores value =>
    let rawValues := (columnValues.lookup value.column).getD []
    let distinctive := ((valueTokens value.normalized).filter fun tok => !V.isGeneric rawValues tok).eraseDups
    let score := distinctive.countP (· ∈ questionTokens)
    if score < 1 then scores else recordScore value.raw score distinctive scores) []
  let best := (scores.map (·.2.1)).foldl max 0
  match scores.filter (·.2.1 = best) with
  | [winner] => ([winner.1], some winner.2.2)
  | winners => (winners.map (·.1), none)

/-- The full-value pass: of the values standing in the question, the longest. -/
def fullValueWinners (matched : List PoolValue) : List String :=
  let maxLength := (matched.map (·.normalized.length)).foldl max 0
  ((matched.filter (·.normalized.length = maxLength)).map (·.raw)).eraseDups

/-- The search of one table, over the columns read from the cache. -/
def matchTable (question table : String) (columnValues : List (String × List String))
    (result : VocabularyMatchResult) : VocabularyMatchResult :=
  if columnValues.isEmpty then
    { result with unavailableTables := result.unavailableTables ++ [table] }
  else
    let result := { result with
      resolvedColumns := result.resolvedColumns ++ columnValues.map fun c => table ++ "." ++ c.1 }
    let pool := columnValues.flatMap fun c =>
      (c.2.map fun raw => ⟨V.normalize raw, raw, c.1⟩).filter fun value : PoolValue =>
        minMatchLength ≤ value.normalized.length
    let matched := pool.filter fun value => value.normalized.toList <:+: question.toList
    let (winners, tokens) :=
      if matched.isEmpty then
        if V.tokenFallback then V.tokenTierWinners pool columnValues question else ([], none)
      else (fullValueWinners matched, none)
    match winners with
    | [] => result
    | [value] => { result with
        filters := result.filters ++ [(table, value)]
        tokenTierFilters := result.tokenTierFilters ++ (tokens.map fun toks => (table, toks)).toList }
    | _ => { result with
        clarifications := result.clarifications ++
          [⟨table, "کدام مورد برای «" ++ table ++ "» مدنظر است؟", sortedStrings winners⟩] }

end VocabularyConfig

/-! ## Who may see what -/

section Policy

variable (E : GuardEnv) (V : VocabularyConfig)

/-- `Principal.__post_init__`: the entries of a key, cleaned at their ends. -/
def principalColumns (entries : List String) : List String := normalizeDeniedEntries isEdgeNoise entries

/-- The policy of a principal with its join-only columns resolved for every source. -/
def readPolicy (entries : List String) : Except String (ColumnPolicy × JoinOnlyRestrictions) := do
  let policy ← parseColumnPolicy E.schema.case E.repr (principalColumns entries)
  let restrictions ← resolveJoinOnly E policy.joinOnly none
  return (policy, restrictions)

/-- The columns `allowed_columns` keeps: not an entry in lower case, and no hidden value column. -/
def allowedColumns (entries : List String) (restrictions : JoinOnlyRestrictions) (table : String)
    (columns : List String) : List String :=
  let denied := (principalColumns entries).map E.schema.case.lower
  columns.filter fun c => decide (E.schema.case.lower c ∉ denied ∧
    E.schema.case.lower c ∉ (restrictions.columnsOf table).map (·.1))

/-- The allowed columns that were ever cached, with their values. -/
def readColumns (cache : VocabularyCache) (table : String) (allowed : List String) :
    List (String × List String) :=
  allowed.filterMap fun c => (cache table c).map fun entry => (c, entry.1)

/-- **`match_question_against_vocabulary`.** -/
def matchQuestionAgainstVocabulary (cache : VocabularyCache) (entries : List String) (question : String)
    (candidateTables : List String) : Except String VocabularyMatchResult := do
  let (_, restrictions) ← readPolicy E entries
  return candidateTables.eraseDups.foldl (fun result table =>
    match V.prefetchColumns table with
    | none => result
    | some columns =>
      let allowed := allowedColumns E entries restrictions table columns
      if allowed.isEmpty then result
      else V.matchTable question table (readColumns cache table allowed) result) {}

/-- **The guard refuses a column** to the principal: outright, or everywhere but in a join. A key whose
entries cannot be read is refused everything. -/
def RefusesColumn (entries : List String) (table column : String) : Prop :=
  match readPolicy E entries with
  | .ok (policy, restrictions) =>
    E.schema.case.upper column ∈ policy.denied ∨
      ((restrictions.columnsOf table).lookup (E.schema.case.casefold column)).isSome
  | .error _ => True

/-- The search leaves a column out. -/
def ExcludesColumn (entries : List String) (table column : String) : Prop :=
  match readPolicy E entries with
  | .ok (_, restrictions) => column ∉ allowedColumns E entries restrictions table [column]
  | .error _ => True

/-- A column of the vocabulary. -/
def PrefetchColumn (table column : String) : Prop :=
  ∃ columns, V.prefetchColumns table = some columns ∧ column ∈ columns

/-- **The values of refused columns do not influence the search.** -/
def Insensitive (entries : List String) : Prop :=
  ∀ question candidateTables, ∀ cache cache' : VocabularyCache,
    (∀ table column, ¬ RefusesColumn E entries table column → cache table column = cache' table column) →
    matchQuestionAgainstVocabulary E V cache entries question candidateTables =
      matchQuestionAgainstVocabulary E V cache' entries question candidateTables

/-- The search leaves out what the guard refuses, and nothing else. -/
def AgreesWithGuard (entries : List String) : Prop :=
  ∀ table column, PrefetchColumn V table column →
    (ExcludesColumn E entries table column ↔ RefusesColumn E entries table column)

variable {E V} {entries : List String}

theorem mem_allowedColumns {restrictions : JoinOnlyRestrictions} {table column : String} {columns : List String} :
    column ∈ allowedColumns E entries restrictions table columns ↔
      column ∈ columns ∧ column ∈ allowedColumns E entries restrictions table [column] := by
  unfold allowedColumns
  simp only [List.mem_filter, List.mem_singleton, true_and]

/-- **A search that leaves out every refused column** reads none of them. -/
theorem readColumns_congr {policy : ColumnPolicy} {restrictions : JoinOnlyRestrictions}
    (hpolicy : readPolicy E entries = .ok (policy, restrictions)) {table : String} {columns : List String}
    {cache cache' : VocabularyCache}
    (hexcludes : ∀ c ∈ columns, RefusesColumn E entries table c → ExcludesColumn E entries table c)
    (hagree : ∀ c, ¬ RefusesColumn E entries table c → cache table c = cache' table c) :
    readColumns cache table (allowedColumns E entries restrictions table columns) =
      readColumns cache' table (allowedColumns E entries restrictions table columns) := by
  refine List.filterMap_congr fun c hc => ?_
  obtain ⟨hmem, hallowed⟩ := mem_allowedColumns.mp hc
  have hseen : ¬ RefusesColumn E entries table c := by
    intro hrefused
    have hout := hexcludes c hmem hrefused
    rw [ExcludesColumn, hpolicy] at hout
    exact hout hallowed
  rw [hagree c hseen]

/-- **Enough for the search to be insensitive**: every refused column is left out. -/
theorem insensitive_of_excludes
    (hexcludes : ∀ table column, PrefetchColumn V table column → RefusesColumn E entries table column →
      ExcludesColumn E entries table column) : Insensitive E V entries := by
  intro question candidateTables cache cache' hagree
  unfold matchQuestionAgainstVocabulary
  cases hpolicy : readPolicy E entries with
  | error message => rfl
  | ok read =>
    obtain ⟨policy, restrictions⟩ := read
    -- The two folds take the same step at every table.
    refine congrArg (fun step => Except.ok (candidateTables.eraseDups.foldl step ({} : VocabularyMatchResult))) ?_
    funext result table
    cases hcolumns : V.prefetchColumns table with
    | none => rfl
    | some columns =>
      have hread := readColumns_congr hpolicy (fun c hc => hexcludes table c ⟨columns, hcolumns, hc⟩)
        fun c => hagree table c
      show (if _ then result else V.matchTable question table (readColumns cache table _) result) = _
      rw [hread]

/-- A search of one table. -/
theorem match_single {policy : ColumnPolicy} {restrictions : JoinOnlyRestrictions}
    (hpolicy : readPolicy E entries = .ok (policy, restrictions)) {table : String} {columns : List String}
    (hcolumns : V.prefetchColumns table = some columns) (cache : VocabularyCache) (question : String)
    (hallowed : allowedColumns E entries restrictions table columns ≠ []) :
    matchQuestionAgainstVocabulary E V cache entries question [table] =
      .ok (V.matchTable question table
        (readColumns cache table (allowedColumns E entries restrictions table columns)) {}) := by
  unfold matchQuestionAgainstVocabulary
  rw [hpolicy]
  refine congrArg Except.ok ?_
  show (match V.prefetchColumns table with
    | none => ({} : VocabularyMatchResult)
    | some columns => _) = _
  rw [hcolumns]
  show (if _ then _ else V.matchTable question table (readColumns _ table _) _) = _
  rw [if_neg (by simpa using hallowed)]

/-- A table is unavailable when nothing was read of it, and only then. -/
theorem unavailableTables_matchTable (V : VocabularyConfig) (question table : String)
    (columnValues : List (String × List String)) :
    (V.matchTable question table columnValues {}).unavailableTables = if columnValues.isEmpty then [table] else [] := by
  unfold VocabularyConfig.matchTable
  split
  · rfl
  · dsimp only
    split <;> rfl

/-- **Necessary for the search to be insensitive**: a refused column that is searched shows whether it was
ever cached. -/
theorem excludes_of_insensitive (h : Insensitive E V entries) {table column : String}
    (hprefetch : PrefetchColumn V table column) (hrefused : RefusesColumn E entries table column) :
    ExcludesColumn E entries table column := by
  by_contra hsearched
  cases hpolicy : readPolicy E entries with
  | error message =>
    rw [ExcludesColumn, hpolicy] at hsearched
    exact hsearched trivial
  | ok read =>
    obtain ⟨policy, restrictions⟩ := read
    obtain ⟨columns, hcolumns, hmem⟩ := hprefetch
    rw [ExcludesColumn, hpolicy] at hsearched
    have hallowed : column ∈ allowedColumns E entries restrictions table columns :=
      mem_allowedColumns.mpr ⟨hmem, not_not.mp hsearched⟩
    have hne := List.ne_nil_of_mem hallowed
    let cached : VocabularyCache := fun t c => if t = table ∧ c = column then some ([], true) else none
    have hsame := h "" [table] (fun _ _ => none) cached fun t c hseen => by
      show none = if t = table ∧ c = column then some ([], true) else none
      rw [if_neg]
      rintro ⟨rfl, rfl⟩
      exact hseen hrefused
    rw [match_single hpolicy hcolumns _ _ hne, match_single hpolicy hcolumns _ _ hne] at hsame
    have hunavailable := congrArg VocabularyMatchResult.unavailableTables (Except.ok.inj hsame)
    have hcold : readColumns (fun _ _ => none) table (allowedColumns E entries restrictions table columns) = [] :=
      List.filterMap_eq_nil_iff.mpr fun _ _ => rfl
    have hwarm : (column, []) ∈ readColumns cached table (allowedColumns E entries restrictions table columns) := by
      refine List.mem_filterMap.mpr ⟨column, hallowed, ?_⟩
      show (if table = table ∧ column = column then some (([] : List String), true) else none).map _ = _
      rw [if_pos ⟨rfl, rfl⟩]
      rfl
    rw [unavailableTables_matchTable, unavailableTables_matchTable, hcold, if_pos List.isEmpty_nil,
      if_neg (by simpa using List.ne_nil_of_mem hwarm)] at hunavailable
    exact List.cons_ne_nil _ _ hunavailable

/-- **The search is insensitive to refused columns** exactly when it leaves every one of them out. -/
theorem insensitive_iff : Insensitive E V entries ↔ ∀ table column, PrefetchColumn V table column →
    RefusesColumn E entries table column → ExcludesColumn E entries table column :=
  ⟨fun h _ _ => excludes_of_insensitive h, insensitive_of_excludes⟩

/-! ## Spellings -/

/-- A plain entry names the column in upper case, as it stands or without its format characters. -/
def NamedInUpperCase (C : CaseMaps) (entries : List String) (column : String) : Prop :=
  ∃ entry ∈ entries, isPlain (entryText entry) = true ∧ (C.upper column = C.upper (entryText entry) ∨
    (normalizeDeniedEntry isEdgeNoise entry ≠ "" ∧ withoutFormatCharacters (entryText entry) ≠ "" ∧
      C.upper column = C.upper (withoutFormatCharacters (entryText entry))))

/-- An entry is the column in lower case. -/
def NamedInLowerCase (C : CaseMaps) (entries : List String) (column : String) : Prop :=
  ∃ entry ∈ entries, C.lower column = C.lower (entryText entry)

/-- **The entries read alike**: the column is named in upper case, or restricted under its case-folded
name, exactly when it is named in lower case, or restricted under its lower-case name. -/
def SpelledAlike (E : GuardEnv) (entries : List String) (table column : String) : Prop :=
  ∀ policy restrictions, readPolicy E entries = .ok (policy, restrictions) →
    (NamedInUpperCase E.schema.case entries column ∨
        E.schema.case.casefold column ∈ (restrictions.columnsOf table).map (·.1) ↔
      NamedInLowerCase E.schema.case entries column ∨
        E.schema.case.lower column ∈ (restrictions.columnsOf table).map (·.1))

/-- A name, and a second one unless it is empty or the same. -/
theorem mem_spelling_iff {α β : Type} [DecidableEq α] (upper : α → β) (text clean stripped empty : α) (name : β) :
    name ∈ upper text ::
        (if (if clean = empty then empty else stripped) ≠ empty ∧
            (if clean = empty then empty else stripped) ≠ text then
          [upper (if clean = empty then empty else stripped)] else []) ↔
      name = upper text ∨ (clean ≠ empty ∧ stripped ≠ empty ∧ name = upper stripped) := by
  by_cases hclean : clean = empty
  · simp [hclean]
  · by_cases hempty : stripped = empty
    · simp [hclean, hempty]
    · by_cases hsame : stripped = text
      · simp [hclean, hsame]
      · simp [hclean, hempty, hsame]

/-- What an entry denies. -/
theorem mem_names_iff {C : CaseMaps} {repr : String → String} {entry name : String} :
    (∃ names, readDeniedEntry C repr entry = .denies names ∧ name ∈ names) ↔
      isPlain (entryText entry) = true ∧ (name = C.upper (entryText entry) ∨
        (normalizeDeniedEntry isEdgeNoise entry ≠ "" ∧ withoutFormatCharacters (entryText entry) ≠ "" ∧
          name = C.upper (withoutFormatCharacters (entryText entry)))) := by
  by_cases hplain : isPlain (entryText entry) = false
  · rw [readDeniedEntry_of_separator rfl hplain, hplain]
    constructor
    · rintro ⟨names, hnames, -⟩
      cases hscoped : parseScoped repr (entryText entry) (ne_empty_of_not_plain hplain) <;>
        rw [hscoped] at hnames <;> cases hnames
    · rintro ⟨hfalse, -⟩
      cases hfalse
  · have hread : ∃ names, readDeniedEntry C repr entry = .denies names ∧ ∀ name, name ∈ names ↔
        name = C.upper (entryText entry) ∨
          (normalizeDeniedEntry isEdgeNoise entry ≠ "" ∧ withoutFormatCharacters (entryText entry) ≠ "" ∧
            name = C.upper (withoutFormatCharacters (entryText entry))) := by
      unfold readDeniedEntry
      exact ⟨_, dif_neg hplain, mem_spelling_iff C.upper _ _ _ _⟩
    obtain ⟨names, hnames, hmem⟩ := hread
    rw [hnames, ← hmem, and_iff_right (Bool.not_eq_false _ |>.mp hplain)]
    constructor
    · rintro ⟨names', hnames', hname⟩
      cases hnames'
      exact hname
    · exact fun hname => ⟨names, rfl, hname⟩

theorem principalColumns_eq (entries : List String) : principalColumns entries = entries.map entryText := rfl

/-- **What a principal's policy denies.** -/
theorem mem_denied_iff {policy : ColumnPolicy} {restrictions : JoinOnlyRestrictions}
    (hpolicy : readPolicy E entries = .ok (policy, restrictions)) (column : String) :
    E.schema.case.upper column ∈ policy.denied ↔ NamedInUpperCase E.schema.case entries column := by
  unfold readPolicy at hpolicy
  rw [bind_ok_iff] at hpolicy
  obtain ⟨policy', hparse, hrest⟩ := hpolicy
  rw [bind_ok_iff] at hrest
  obtain ⟨restrictions', -, hpair⟩ := hrest
  cases hpair
  rw [(parseFrom_ok hparse).1, principalColumns_eq]
  simp only [List.not_mem_nil, false_or]
  constructor
  · rintro ⟨clean, hclean, hnames⟩
    obtain ⟨entry, hentry, rfl⟩ := List.mem_map.mp hclean
    rw [readDeniedEntry_entryText] at hnames
    exact ⟨entry, hentry, mem_names_iff.mp hnames⟩
  · rintro ⟨entry, hentry, hnamed⟩
    refine ⟨entryText entry, List.mem_map_of_mem hentry, ?_⟩
    rw [readDeniedEntry_entryText]
    exact mem_names_iff.mpr hnamed

/-- The two notions agree on a column exactly when the entries read alike on it. -/
theorem excludes_iff_refuses {table column : String} :
    (ExcludesColumn E entries table column ↔ RefusesColumn E entries table column) ↔
      SpelledAlike E entries table column := by
  unfold ExcludesColumn RefusesColumn SpelledAlike
  cases hpolicy : readPolicy E entries with
  | error message =>
    exact iff_of_true Iff.rfl fun _ _ h => by cases h
  | ok read =>
    obtain ⟨policy, restrictions⟩ := read
    have hrefuses : (E.schema.case.upper column ∈ policy.denied ∨
        ((restrictions.columnsOf table).lookup (E.schema.case.casefold column)).isSome) ↔
        (NamedInUpperCase E.schema.case entries column ∨
          E.schema.case.casefold column ∈ (restrictions.columnsOf table).map (·.1)) := by
      rw [mem_denied_iff hpolicy, List.lookup_isSome_iff, List.mem_map]
      simp only [beq_iff_eq, @eq_comm _ (E.schema.case.casefold column)]
    have hexcludes : column ∉ allowedColumns E entries restrictions table [column] ↔
        (NamedInLowerCase E.schema.case entries column ∨
          E.schema.case.lower column ∈ (restrictions.columnsOf table).map (·.1)) := by
      unfold allowedColumns NamedInLowerCase
      rw [principalColumns_eq, List.mem_filter]
      simp only [List.mem_singleton, true_and, decide_eq_true_eq, not_and_or, not_not, List.map_map]
      rw [List.mem_map]
      simp only [Function.comp_apply, @eq_comm _ _ (E.schema.case.lower column)]
    show ((column ∉ allowedColumns E entries restrictions table [column]) ↔ _) ↔ _
    rw [hexcludes]
    constructor
    · rintro h policy' restrictions' heq
      cases heq
      exact (h.trans hrefuses).symm
    · intro h
      exact ((h policy restrictions rfl).symm).trans hrefuses.symm

/-- **The vocabulary and the guard**: the values of refused columns never influence the search and its
notion of denied agrees with the guard's, exactly when the entries read alike on every column of the
vocabulary. -/
theorem insensitive_and_agrees_iff : Insensitive E V entries ∧ AgreesWithGuard E V entries ↔
    ∀ table column, PrefetchColumn V table column → SpelledAlike E entries table column := by
  have hagrees : AgreesWithGuard E V entries ↔
      ∀ table column, PrefetchColumn V table column → SpelledAlike E entries table column :=
    forall_congr' fun table => forall_congr' fun column => imp_congr_right fun _ => excludes_iff_refuses
  rw [hagrees, and_iff_right_of_imp]
  intro halike
  exact insensitive_of_excludes fun table column hprefetch =>
    (excludes_iff_refuses.mpr (halike table column hprefetch)).mpr

end Policy

/-! ## A format character inside an entry -/

/-- The names of customers as vocabulary. -/
def customerVocabulary : VocabularyConfig where
  normalize := asciiCase.lower
  prefetchColumns table := if table = "sales.Customer" then some ["Name"] else none
  tokenFallback := true

/-- One customer in the cache. -/
def acmeCached : VocabularyCache := fun table column =>
  if table = "sales.Customer" ∧ column = "Name" then some (["Acme Steel"], true) else none

/-- What the guard reads: the name under both its spellings, and no join-only column. -/
theorem readPolicy_joinerInside : readPolicy salesEnv ["Na\u200cme"] =
    .ok (⟨["NA\u200cME", "NAME"], []⟩, ⟨[], nofun⟩) := by
  rfl

/-- **A denied name with a zero-width character inside**: the guard refuses the column under both its
spellings, and its values still reach the filters. -/
theorem joinerInside_not_insensitive :
    RefusesColumn salesEnv ["Na\u200cme"] "sales.Customer" "Name" ∧
    matchQuestionAgainstVocabulary salesEnv customerVocabulary acmeCached ["Na\u200cme"] "orders of acme steel"
      ["sales.Customer"] = .ok
        { filters := [("sales.Customer", "Acme Steel")], resolvedColumns := ["sales.Customer.Name"] } ∧
    ¬ Insensitive salesEnv customerVocabulary ["Na\u200cme"] ∧
    ¬ AgreesWithGuard salesEnv customerVocabulary ["Na\u200cme"] := by
  have hrefused : RefusesColumn salesEnv ["Na\u200cme"] "sales.Customer" "Name" := by
    rw [RefusesColumn, readPolicy_joinerInside]
    exact Or.inl (by decide)
  have hsearched : ¬ ExcludesColumn salesEnv ["Na\u200cme"] "sales.Customer" "Name" := by
    rw [ExcludesColumn, readPolicy_joinerInside]
    decide
  have hprefetch : PrefetchColumn customerVocabulary "sales.Customer" "Name" := ⟨["Name"], rfl, List.mem_singleton_self _⟩
  refine ⟨hrefused, by rfl, fun hinsensitive => ?_, fun hagrees => ?_⟩
  · exact hsearched (excludes_of_insensitive hinsensitive hprefetch hrefused)
  · exact hsearched ((hagrees _ _ hprefetch).mpr hrefused)

end LocalSqlAgent
