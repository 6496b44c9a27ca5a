import LocalSqlAgent.Lib.Transition
import LocalSqlAgent.Session.TurnFilters

/-! # The filters of a session

The filters over the turns of a session: each turn reads those of the turn before from the record, and the
memory it appends holds its own. A question with no cue of a refinement starts over; the others keep what
they inherit.

* **`answers`**: the filters and the assumptions of every turn of a session.
* **`answers_startsOver`**: nothing of the record reaches the turns from a question that starts over on.
* **`refinements_carry`**: a filter over a run of refinements that leave it alone. The year moves by the
  years the questions name, the scope keeps its text, any other filter its value.
* **`composed_shows`**: a turn composed over the previous rows shows the filters those were selected with.
* **`override_inForce`**: what the user overrides of them is in force after the turn. -/

namespace LocalSqlAgent

/-! ## Turns -/

/-- What a request brings, and what no filter decides of the turn and its memory. -/
structure Asking where
  /-- The request. -/
  input : AskInput
  /-- The turn. -/
  turn : AskedTurn
  /-- Its memory, but for the filters. -/
  memory : AskedMemory
  /-- An id is never empty. -/
  minted : turn.turnId ≠ ""

/-- The record with the turn appended. -/
def Asking.appended (l : Asking) (r : AskRecord) (filters : OrderedDict String PyValue) : AskRecord :=
  r.append l.turn { l.memory with filters }

/-- The filters in force after the turns of a record. -/
def AskRecord.inForce (r : AskRecord) : OrderedDict String PyValue := r.previousMemory.elim ∅ fun m => m.filters

/-- A question that refines the turn before it. -/
def IsRefinement (question : String) : Prop :=
  containsAny question cteRefinementCues = true ∨ containsAny question carryForwardCues = true

section Turns

variable (S : AskSettings)

/-- **One turn of a session**; `none` where `int` raises. -/
def askTurn (r : AskRecord) (l : Asking) : Option AskRecord :=
  (resolveTurn S r l.input).map fun f => l.appended r f.filters

/-- **The filters and the assumptions of every turn**; `none` where one raises. -/
def answers : AskRecord → List Asking → Option (List TurnFilters)
  | _, [] => some []
  | r, l :: later => do
    let f ← resolveTurn S r l.input
    let rest ← answers (l.appended r f.filters) later
    return f :: rest

end Turns

/-! ## The basis of a turn -/

section Basis

variable {S : AskSettings} {r r' : AskRecord} {l : Asking} {filters : OrderedDict String PyValue} {question : String}

theorem lastTurn_appended : (l.appended r filters).lastTurn = some l.turn :=
  List.getLast?_concat

theorem previousMemory_appended : (l.appended r filters).previousMemory = some { l.memory with filters } := by
  rw [AskRecord.previousMemory, lastTurn_appended, Option.map_some, AskRecord.memoryFor, orNothing,
    Option.filter_some, if_pos (by simpa using l.minted), Option.bind_some]
  exact OrderedDict.lookup_assign_self _ _ _

/-- The memory of a turn is what the next one inherits. -/
theorem inForce_appended : (l.appended r filters).inForce = filters := by
  rw [AskRecord.inForce, previousMemory_appended]
  rfl

/-- The basis after a turn is the turn's. -/
theorem basis_appended : (l.appended r filters).basis question = (l.appended r' filters).basis question := by
  rw [AskRecord.basis, AskRecord.basis, lastTurn_appended, lastTurn_appended, previousMemory_appended,
    previousMemory_appended]

/-- A question that starts over inherits nothing. -/
theorem basis_startsOver (h : ¬ IsRefinement question) :
    r.basis question = { kind := .fresh, refinesTurnId := none, composition := .none } := by
  obtain ⟨hcte, hcarry⟩ := not_or.mp h
  unfold AskRecord.basis classifyBasis
  cases r.lastTurn with
  | none => rfl
  | some t => exact (if_neg hcte).trans (if_neg hcarry)

/-- The years a refinement moves the period by. -/
def yearShift (question : String) : ℤ :=
  if containsAny question cteRefinementCues then 0 else relativePeriodDelta question

/-- What a refinement inherits. -/
structure Inherits (r : AskRecord) (question : String) (d : BasisDecision) : Prop where
  kind : d.kind = .refines
  filters : d.inheritedFilters = r.inForce
  shift : d.periodDelta = yearShift question
  composition : d.composition = .cte ↔ containsAny question cteRefinementCues = true

/-- A question with a cue refines the turn before it. -/
theorem basis_refines (hturn : r.turns ≠ []) (h : IsRefinement question) :
    Inherits r question (r.basis question) := by
  have hlast : r.lastTurn = some (r.turns.getLast hturn) := List.getLast?_eq_some_getLast hturn
  unfold AskRecord.basis classifyBasis
  rw [hlast]
  dsimp only
  by_cases hcte : containsAny question cteRefinementCues = true
  · rw [if_pos hcte]
    exact ⟨rfl, rfl, (if_pos hcte).symm, iff_of_true rfl hcte⟩
  · rw [if_neg hcte, if_pos (h.resolve_left hcte)]
    exact ⟨rfl, rfl, (if_neg hcte).symm, iff_of_false BasisComposition.noConfusion hcte⟩

end Basis

/-! ## The policy -/

/-- The policy's names are apart from the period's. -/
structure PolicyApart (P : ScopePolicy) : Prop where
  key : P.filterKey ≠ yearKey
  field : P.fieldName ≠ "period"

/-- A key that is shown under a name of its own. -/
def KeyApart (S : AskSettings) (key : String) : Prop :=
  key ≠ S.policy.filterKey → key ≠ yearKey →
    S.texts.lower key ≠ S.policy.fieldName ∧ S.texts.lower key ≠ "period"

/-- Every filter is. -/
def KeysApart (S : AskSettings) (filters : OrderedDict String PyValue) : Prop := ∀ key ∈ filters, KeyApart S key

section Shown

variable {S : AskSettings} (hpolicy : PolicyApart S.policy) {key : String}

theorem displayField_year : S.texts.displayField S.policy yearKey = "period" := if_pos rfl

include hpolicy in
theorem displayField_scope : S.texts.displayField S.policy S.policy.filterKey = S.policy.fieldName :=
  (if_neg hpolicy.key).trans (if_pos rfl)

include hpolicy in
/-- Only the scope is shown as the scope. -/
theorem displayField_eq_scope (h : KeyApart S key) :
    S.texts.displayField S.policy key = S.policy.fieldName ↔ key = S.policy.filterKey := by
  constructor
  · intro hshown
    by_contra hkey
    unfold PyTexts.displayField at hshown
    by_cases hyear : key = yearKey
    · rw [if_pos hyear] at hshown
      exact hpolicy.field hshown.symm
    · rw [if_neg hyear, if_neg hkey] at hshown
      exact (h hkey hyear).1 hshown
  · rintro rfl
    exact displayField_scope hpolicy

include hpolicy in
/-- Only the year is shown as the period. -/
theorem displayField_eq_period (h : KeyApart S key) :
    S.texts.displayField S.policy key = "period" ↔ key = yearKey := by
  constructor
  · intro hshown
    by_contra hyear
    unfold PyTexts.displayField at hshown
    rw [if_neg hyear] at hshown
    by_cases hkey : key = S.policy.filterKey
    · rw [if_pos hkey] at hshown
      exact hpolicy.field hshown
    · rw [if_neg hkey] at hshown
      exact (h hkey hyear).2 hshown
  · rintro rfl
    exact displayField_year

end Shown

/-! ## Years as texts -/

section Years

variable {S : AskSettings}

theorem isPySpace_of_isDigit {c : Char} (h : c.isDigit = true) : isPySpace c = false := by
  have hrange : 48 ≤ c.toNat ∧ c.toNat ≤ 57 := Char.isDigit_iff_toNat.mp h
  unfold isPySpace
  simp only [Bool.or_eq_false_iff, Bool.and_eq_false_iff, decide_eq_false_iff_not]
  omega

/-- A text with no spaces is its own stripped text. -/
theorem stripText_eq {s : String} (h : ∀ c ∈ s.toList, isPySpace c = false) : stripText s = s := by
  have hdrop : ∀ cs : List Char, (∀ c ∈ cs, isPySpace c = false) → cs.dropWhile isPySpace = cs := by
    intro cs hcs
    cases cs with
    | nil => rfl
    | cons c rest => exact List.dropWhile_cons_of_neg (by simp [hcs c List.mem_cons_self])
  unfold stripText strip rstrip lstrip
  rw [hdrop _ h, hdrop _ fun c hc => h c (List.mem_reverse.mp hc), List.reverse_reverse, String.ofList_toList]

/-- ASCII digits are read. -/
theorem mapM_decimal {T : PyTexts} {cs : List Char} (h : ∀ c ∈ cs, c.isDigit = true) :
    cs.mapM T.decimal = some (cs.map fun c => c.toNat - '0'.toNat) := by
  induction cs with
  | nil => rfl
  | cons c rest ih =>
    rw [List.mapM_cons, T.decimal_ascii c (h c List.mem_cons_self), ih fun x hx => h x (List.mem_cons_of_mem _ hx)]
    rfl

/-- Every text of digits is a number to `int`. -/
def ReadsDigits (T : PyTexts) : Prop := ∀ text, T.isDigits text = true → ∃ n, T.readDigits text = some n

/-- The digits of a number are read back. -/
theorem readYear_nat (n : ℕ) : readYear S (toString n) = some (.int n) := by
  have hchars : (toString n).toList = Nat.toDigits 10 n := Nat.toList_repr
  have hdigits : ∀ c ∈ Nat.toDigits 10 n, c.isDigit = true :=
    fun c hc => Nat.isDigit_of_mem_toDigits (by decide) (by decide) hc
  have hstrip : stripText (toString n) = toString n :=
    stripText_eq fun c hc => isPySpace_of_isDigit (hdigits c (hchars ▸ hc))
  have hall : S.texts.isDigits (toString n) = true := by
    unfold PyTexts.isDigits
    rw [hchars, Bool.and_eq_true]
    refine ⟨decide_eq_true fun hempty => ?_, List.all_eq_true.mpr fun c hc => S.texts.isDigit_ascii c (hdigits c hc)⟩
    rw [hempty] at hchars
    exact Nat.toDigits_ne_nil hchars.symm
  have hvalue : S.texts.readDigits (toString n) = some (n : ℤ) := by
    unfold PyTexts.readDigits
    rw [hchars, mapM_decimal hdigits, Option.map_some, List.foldl_map, ← Nat.ofDigitChars_eq_foldl,
      Nat.ofDigitChars_ten_toDigits]
  rw [readYear, hstrip, if_pos hall, hvalue]
  rfl

/-- **The text of a year says the year**, or is no text of digits. -/
theorem readYear_int (y : ℤ) : (readYear S (toString y)).getD (.int y) = .int y := by
  by_cases hy : 0 ≤ y
  · obtain ⟨n, rfl⟩ := Int.eq_ofNat_of_zero_le hy
    have htext : toString (n : ℤ) = toString n := by
      rw [Int.toString_eq_repr, Int.repr_eq_if, if_pos hy, Int.toNat_natCast]
      rfl
    rw [htext, readYear_nat]
    rfl
  · have hchars : (toString y).toList = '-' :: Nat.toDigits 10 (-y).toNat := by
      rw [Int.toString_eq_repr, Int.repr_eq_if, if_neg hy, String.toList_append, Nat.toList_repr]
      rfl
    have hstrip : stripText (toString y) = toString y := by
      refine stripText_eq fun c hc => ?_
      obtain rfl | hc := List.mem_cons.mp (hchars ▸ hc)
      · rfl
      · exact isPySpace_of_isDigit (Nat.isDigit_of_mem_toDigits (by decide) (by decide) hc)
    have hnot : ¬ S.texts.isDigits (toString y) = true := by
      unfold PyTexts.isDigits
      rw [hchars, List.all_cons, S.texts.isDigit_minus, Bool.false_and, Bool.and_false]
      exact Bool.false_ne_true
    rw [readYear, hstrip, if_neg hnot]
    rfl

end Years

/-! ## A session about cement -/

/-- The conversions, as ASCII and the values of the examples need them. -/
def asciiTexts : PyTexts where
  lower s := String.ofList (s.toList.map Char.toLower)
  str
    | .str s => s
    | .int n => toString n
    | .float repr => repr
    | .standard _ text => text
    | .bool b => if b then "True" else "False"
    | _ => "None"
  int
    | .int n => some n
    | .bool b => some b.toInt
    | _ => none
  isDigit c := c.isDigit
  decimal c := if c.isDigit then some (c.toNat - '0'.toNat) else none
  str_str _ := rfl
  str_int _ := rfl
  int_int _ := rfl
  isDigit_ascii _ h := h
  decimal_ascii _ h := if_pos h
  isDigit_minus := rfl

/-- Rankings go by the ring. -/
def ringSettings : AskSettings where
  policy := ⟨"Ring", "ring", "all rings", ["cement", "steel"], "Which ring?"⟩
  texts := asciiTexts
  memoryKeys := ∅
  memoryEnabled := true

/-- A question with nothing besides. -/
def askedAlone (question : String) : AskInput where
  question
  contextFilters := ∅
  overrides := ∅
  memoryEntries := ∅
  deniedColumns := none
  today := ⟨2024, 5, 1, by decide⟩

/-- A turn that asks it. -/
def askedTurn (question : String) : Asking where
  input := askedAlone question
  turn := ⟨"t_1", "s_1", 1, question, some "SELECT 1", none, none⟩
  memory := ⟨∅, [], some "SELECT 1", none, 0, none⟩
  minted := by
    show "t_1" ≠ ""
    decide

/-- The cement of 1402 was asked for. -/
def cementSession : AskRecord :=
  (askedTurn "sales").appended (recordOf []) (.ofPairs [("Ring", .str "cement"), (yearKey, .int 1402)])

theorem asciiTexts_readsDigits : ReadsDigits asciiTexts := by
  intro text hdigits
  have hall := (Bool.and_eq_true_iff.mp hdigits).2
  exact ⟨_, congrArg (Option.map _) (mapM_decimal (List.all_eq_true.mp hall))⟩

theorem turns_cementSession : cementSession.turns ≠ [] := List.concat_ne_nil _ _

theorem apart_ringSettings : PolicyApart ringSettings.policy := ⟨by decide, by decide⟩

theorem keysApart_cementSession : KeysApart ringSettings cementSession.inForce := by
  rw [cementSession, inForce_appended]
  intro key hkey hscope hyear
  obtain rfl | rfl : key = "Ring" ∨ key = yearKey := by simpa using OrderedDict.mem_ofPairs.mp hkey
  · exact absurd rfl hscope
  · exact absurd rfl hyear

/-! ## Starting over -/

section StartsOver

variable {S : AskSettings} {r r' : AskRecord} {l : Asking} {input : AskInput}

/-- A record is read through the basis alone. -/
theorem resolveTurn_congr (h : r.basis input.question = r'.basis input.question) :
    resolveTurn S r input = resolveTurn S r' input := by
  unfold resolveTurn
  rw [h]

/-- After a turn, what was before it is not read. -/
theorem answers_appended (filters : OrderedDict String PyValue) (later : List Asking) :
    answers S (l.appended r filters) later = answers S (l.appended r' filters) later := by
  induction later generalizing l r r' filters with
  | nil => rfl
  | cons next later ih =>
    rw [answers, answers, resolveTurn_congr basis_appended]
    exact congrArg _ (funext fun f => congrArg (Option.bind · _) (ih f.filters))

end StartsOver

/-! ## A generated refinement -/

section Generated

variable {S : AskSettings} {d : BasisDecision} {input : AskInput} {f : TurnFilters}
  {merged : OrderedDict String PyValue}

/-- The text a filter is shown with. -/
def shownText (S : AskSettings) (overrides : OrderedDict String String) (field : String) (value : PyValue) : String :=
  (overrides.lookup field).getD (S.texts.str value)

theorem field_overridden (overrides : OrderedDict String String) (a : Assumption) :
    (overridden overrides a).field = a.field := by
  unfold overridden
  split
  · split <;> rfl
  · rfl

theorem value_overridden {overrides : OrderedDict String String} {a : Assumption} (h : a.editable = true) :
    (overridden overrides a).value = (overrides.lookup a.field).getD a.value := by
  unfold overridden
  cases overrides.lookup a.field with
  | none => rfl
  | some value => exact congrArg Assumption.value (if_pos h)

/-- Nothing but overrides touches what a session carries. -/
theorem settled_carryForward (filters : OrderedDict String PyValue) :
    (settledAssumptions S input (assumptionsForCarryForward S.policy S.texts filters)).1 =
      (assumptionsForCarryForward S.policy S.texts filters).map (overridden input.overrides) := by
  have hsession : ∀ a ∈ assumptionsForCarryForward S.policy S.texts filters, a.source ≠ .default := by
    intro a ha hdefault
    obtain ⟨e, -, rfl⟩ := List.mem_map.mp ha
    cases hdefault
  exact congrArg (applyOverrides · input.overrides) (applyMemory_settled hsession _ _)

/-- What the carried assumptions write under a key, by the text its filter is shown with. -/
theorem getLast?_carried {w : Assumption → Option PyValue} {g : String → Option PyValue} {field key : String}
    (hw : ∀ a, w a = if a.field = field then g a.value else none)
    (hshown : ∀ k ∈ merged, S.texts.displayField S.policy k = field ↔ k = key) :
    ((((assumptionsForCarryForward S.policy S.texts merged).map (overridden input.overrides)).filterMap w).getLast?) =
      (merged.lookup key).bind fun v => g (shownText S input.overrides field v) := by
  rw [assumptionsForCarryForward, List.map_map, List.filterMap_map]
  refine Eq.trans (congrArg List.getLast? (List.filterMap_congr fun e he => ?_))
    (getLast?_filterMap_key merged.nodupKeys key)
  have hiff := hshown e.1 (List.mem_map_of_mem he)
  rw [Function.comp_apply, Function.comp_apply, hw, field_overridden, value_overridden rfl]
  by_cases hkey : e.1 = key
  · rw [if_pos (hiff.mpr hkey), if_pos hkey, shownText, hiff.mpr hkey]
  · rw [if_neg fun h => hkey (hiff.mp h), if_neg hkey]

/-- The filters of a generated refinement: other keys as merged, the scope as shown, a shown year of digits. -/
structure GeneratedFrom (S : AskSettings) (overrides : OrderedDict String String)
    (merged filters : OrderedDict String PyValue) : Prop where
  other : ∀ key, key ≠ S.policy.filterKey → key ≠ yearKey → filters.lookup key = merged.lookup key
  scope : filters.lookup S.policy.filterKey =
    (merged.lookup S.policy.filterKey).map fun v => .str (shownText S overrides S.policy.fieldName v)
  year : filters.lookup yearKey =
    (merged.lookup yearKey).map fun v => (readYear S (shownText S overrides "period" v)).getD v

/-- **The filters of a generated refinement**, from the merged ones. -/
theorem generated_from (hpolicy : PolicyApart S.policy) (hkind : d.kind = .refines)
    (h : generativeFilters S d input = some f) :
    ∃ merged, mergedFilters S d input = some merged ∧
      (KeysApart S merged → GeneratedFrom S input.overrides merged f.filters) := by
  unfold generativeFilters at h
  obtain ⟨merged, hmerged, h⟩ := Option.bind_eq_some_iff.mp h
  obtain ⟨filters, hwritten, h⟩ := Option.bind_eq_some_iff.mp h
  cases h
  refine ⟨merged, hmerged, fun hkeys => ?_⟩
  rw [if_pos hkind, settled_carryForward] at hwritten
  refine ⟨fun key hscope hyear => lookup_writes_other hwritten hscope hyear, ?_, ?_⟩
  · rw [lookup_writes_scope hpolicy.key hwritten,
      getLast?_carried (w := scopeWritten S) (g := fun text => some (.str text)) (fun a => rfl)
      fun k hk => displayField_eq_scope hpolicy (hkeys k hk)]
    cases merged.lookup S.policy.filterKey <;> rfl
  · rw [lookup_writes_year hpolicy.key hpolicy.field hwritten,
      getLast?_carried (w := periodWritten S) (g := readYear S) (fun a => rfl)
      fun k hk => displayField_eq_period hpolicy (hkeys k hk)]
    cases merged.lookup yearKey with
    | none => rfl
    | some v =>
      rw [Option.bind_some, Option.map_some]
      cases readYear S (shownText S input.overrides "period" v) <;> rfl

end Generated

/-! ## What a refinement takes over -/

section Merged

variable {S : AskSettings} {d : BasisDecision} {input : AskInput} {merged : OrderedDict String PyValue} {key : String}

/-- Nothing but the year is shifted. -/
theorem lookup_merged (h : mergedFilters S d input = some merged) (hkey : key ≠ yearKey ∨ d.periodDelta = 0) :
    merged.lookup key = (input.contextFilters.lookup key).or (d.inheritedFilters.lookup key) := by
  unfold mergedFilters at h
  dsimp only at h
  split at h
  · rename_i hshift
    obtain ⟨year, -, rfl⟩ := Option.map_eq_some_iff.mp h
    rw [OrderedDict.lookup_assign_of_ne _ _ (hkey.resolve_right hshift.2), lookup_update]
  · cases h
    exact lookup_update _ _ _

/-- A year is shifted by what the question says. -/
theorem lookup_merged_year (h : mergedFilters S d input = some merged) (hkind : d.kind = .refines)
    (hsilent : yearKey ∉ input.contextFilters) {y : ℤ} (hyear : d.inheritedFilters.lookup yearKey = some (.int y)) :
    merged.lookup yearKey = some (.int (y + d.periodDelta)) := by
  have hbefore : (d.inheritedFilters.update input.contextFilters).lookup yearKey = some (.int y) := by
    rw [lookup_update, AList.lookup_eq_none.mpr hsilent, Option.none_or, hyear]
  by_cases hdelta : d.periodDelta = 0
  · rw [lookup_merged h (.inr hdelta), AList.lookup_eq_none.mpr hsilent, Option.none_or, hyear, hdelta, Int.add_zero]
  · unfold mergedFilters at h
    rw [if_pos ⟨hkind, hdelta⟩, baseYear, hbefore] at h
    obtain ⟨year, hread, rfl⟩ := Option.map_eq_some_iff.mp h
    cases (S.texts.int_int y).symm.trans hread
    exact OrderedDict.lookup_assign_self _ _ _

/-- The keys of the merged filters. -/
theorem mem_merged (h : mergedFilters S d input = some merged) (hkey : key ∈ merged) :
    key = yearKey ∨ key ∈ input.contextFilters ∨ key ∈ d.inheritedFilters := by
  by_cases hyear : key = yearKey
  · exact .inl hyear
  · obtain ⟨v, hv⟩ := Option.isSome_iff_exists.mp (AList.lookup_isSome.mpr hkey)
    rw [lookup_merged h (.inl hyear)] at hv
    obtain hcontext | ⟨-, hinherited⟩ := Option.or_eq_some_iff.mp hv
    · exact .inr (.inl (AList.lookup_isSome.mp (Option.isSome_of_eq_some hcontext)))
    · exact .inr (.inr (AList.lookup_isSome.mp (Option.isSome_of_eq_some hinherited)))

theorem keysApart_merged (h : mergedFilters S d input = some merged) (hcontext : KeysApart S input.contextFilters)
    (hinherited : KeysApart S d.inheritedFilters) : KeysApart S merged := by
  intro k hk
  obtain rfl | hk | hk := mem_merged h hk
  · exact fun _ hyear => absurd rfl hyear
  · exact hcontext k hk
  · exact hinherited k hk

end Merged

section Refinement

variable {S : AskSettings} {r : AskRecord} {input : AskInput} {f : TurnFilters} {d : BasisDecision}

/-- An inherited filter in a turn: a composition that is given up has it as overridden. -/
def takenOver (S : AskSettings) (input : AskInput) (key : String) (v : PyValue) : PyValue :=
  if containsAny input.question cteRefinementCues then
    ((conflictingEntry S.policy S.texts input.overrides ⟨key, v⟩).map PyValue.str).getD v
  else v

theorem takenOver_of_silent {key : String} {v : PyValue}
    (h : input.overrides.lookup (S.texts.displayField S.policy key) = none) : takenOver S input key v = v := by
  unfold takenOver conflictingEntry
  rw [h]
  exact ite_self v

/-- The filters of a composition that is given up. -/
theorem lookup_conflict {inherited filters : OrderedDict String PyValue} {overrides : OrderedDict String String}
    (h : cteOverrideConflict S.policy S.texts inherited overrides = some filters) (key : String) :
    filters.lookup key = (inherited.lookup key).map fun v =>
      ((conflictingEntry S.policy S.texts overrides ⟨key, v⟩).map PyValue.str).getD v := by
  unfold cteOverrideConflict at h
  split at h
  · cases h
    rw [lookup_foldl_assign key inherited.nodupKeys]
    show ((inherited.lookup key).bind _).or (inherited.lookup key) = _
    cases inherited.lookup key with
    | none => rfl
    | some v =>
      rw [Option.bind_some, Option.map_some]
      cases conflictingEntry S.policy S.texts overrides ⟨key, v⟩ <;> rfl
  · cases h

/-- With no conflict, every override of a filter says its text. -/
theorem conflictingEntry_eq_none {inherited : OrderedDict String PyValue} {overrides : OrderedDict String String}
    (h : cteOverrideConflict S.policy S.texts inherited overrides = none) {e : DictEntry String PyValue}
    (he : e ∈ inherited.entries) : conflictingEntry S.policy S.texts overrides e = none := by
  unfold cteOverrideConflict at h
  split at h
  · cases h
  · rename_i hany
    by_contra hsome
    exact hany (List.any_eq_true.mpr ⟨e, he, Option.isSome_iff_ne_none.mpr hsome⟩)

/-- A turn composed over the rows of the turn before. -/
def Composed (S : AskSettings) (r : AskRecord) (input : AskInput) : Prop :=
  (settledDecision S (r.basis input.question) input.overrides).kind = .refines ∧
    (settledDecision S (r.basis input.question) input.overrides).composition = .cte

/-- The basis of a generated refinement. -/
structure GeneratedBasis (S : AskSettings) (r : AskRecord) (input : AskInput) (d : BasisDecision) : Prop where
  kind : d.kind = .refines
  shift : d.periodDelta = yearShift input.question
  filters : ∀ key, d.inheritedFilters.lookup key = (r.inForce.lookup key).map (takenOver S input key)

theorem resolveTurn_of (h : settledDecision S (r.basis input.question) input.overrides = d) :
    resolveTurn S r input = if d.kind = .refines ∧ d.composition = .cte then some (cteFilters S d input)
      else generativeFilters S d input := by
  subst h
  rfl

/-- A decision is settled as it is, but for a composition whose filters are overridden. -/
theorem settledDecision_eq (S : AskSettings) (d : BasisDecision) (overrides : OrderedDict String String)
    (h : d.composition = .cte → cteOverrideConflict S.policy S.texts d.inheritedFilters overrides = none) :
    settledDecision S d overrides = d := by
  unfold settledDecision
  split
  · rename_i hcte
    rw [h hcte.2]
  · rfl

theorem settledDecision_conflict {overrides : OrderedDict String String} {filters : OrderedDict String PyValue}
    (hcte : d.kind = .refines ∧ d.composition = .cte)
    (h : cteOverrideConflict S.policy S.texts d.inheritedFilters overrides = some filters) :
    settledDecision S d overrides = { d with composition := .none, inheritedFilters := filters } := by
  unfold settledDecision
  rw [if_pos hcte, h]

/-- No filter is new in what a refinement takes over. -/
theorem GeneratedBasis.keysApart (h : GeneratedBasis S r input d) (hkeys : KeysApart S r.inForce) :
    KeysApart S d.inheritedFilters := by
  intro k hk
  obtain ⟨v, hv⟩ := Option.isSome_iff_exists.mp (AList.lookup_isSome.mpr hk)
  rw [h.filters] at hv
  obtain ⟨v', hv', -⟩ := Option.map_eq_some_iff.mp hv
  exact hkeys k (AList.lookup_isSome.mp (Option.isSome_of_eq_some hv'))

/-- **A refinement** is composed, or generated from what it takes over. -/
theorem refinement_cases (S : AskSettings) (hturn : r.turns ≠ []) (href : IsRefinement input.question) :
    (resolveTurn S r input = some (cteFilters S (r.basis input.question) input) ∧ yearShift input.question = 0 ∧
      cteOverrideConflict S.policy S.texts r.inForce input.overrides = none) ∨
    ∃ d, GeneratedBasis S r input d ∧ resolveTurn S r input = generativeFilters S d input := by
  have hbasis := basis_refines hturn href
  by_cases hcte : containsAny input.question cteRefinementCues = true
  · have hcomposed := hbasis.composition.mpr hcte
    cases hconflict : cteOverrideConflict S.policy S.texts r.inForce input.overrides with
    | none =>
      have hsettled := settledDecision_eq S (r.basis input.question) input.overrides
        fun _ => hbasis.filters ▸ hconflict
      exact .inl ⟨(resolveTurn_of hsettled).trans (if_pos ⟨hbasis.kind, hcomposed⟩), if_pos hcte, rfl⟩
    | some filters =>
      have hsettled := settledDecision_conflict (S := S) ⟨hbasis.kind, hcomposed⟩ (hbasis.filters ▸ hconflict)
      have hresolved := resolveTurn_of hsettled
      rw [if_neg fun hboth => BasisComposition.noConfusion hboth.2] at hresolved
      refine .inr ⟨{ r.basis input.question with composition := .none, inheritedFilters := filters },
        ⟨hbasis.kind, hbasis.shift, fun key => ?_⟩, hresolved⟩
      rw [lookup_conflict hconflict]
      exact congrArg (Option.map · _) (funext fun v => (if_pos hcte).symm)
  · have hplain : (r.basis input.question).composition ≠ .cte := fun hc => hcte (hbasis.composition.mp hc)
    have hsettled := settledDecision_eq S _ input.overrides fun hc => absurd hc hplain
    refine .inr ⟨_, ⟨hbasis.kind, hbasis.shift, fun key => ?_⟩,
      (resolveTurn_of hsettled).trans (if_neg fun hboth => hplain hboth.2)⟩
    have hid : takenOver S input key = id := funext fun v => if_neg hcte
    rw [hbasis.filters, hid, Option.map_id]
    rfl

end Refinement

/-! ## Turns that do not raise -/

section Progress

variable {S : AskSettings} {r : AskRecord} {input : AskInput} {d : BasisDecision}

theorem exists_generatedFilters (hreads : ReadsDigits S.texts) {merged : OrderedDict String PyValue}
    (hmerged : mergedFilters S d input = some merged) : ∃ f, generativeFilters S d input = some f := by
  have hwrites : ∀ (as : List Assumption) (filters : OrderedDict String PyValue),
      ∃ filters', as.foldlM (writeAssumption S) filters = some filters' := by
    intro as
    induction as with
    | nil => exact fun filters => ⟨filters, rfl⟩
    | cons a rest ih =>
      intro filters
      obtain ⟨filters', hwrite⟩ : ∃ filters', writeAssumption S filters a = some filters' := by
        unfold writeAssumption
        split
        · exact ⟨_, rfl⟩
        · split
          · rename_i hyear
            obtain ⟨n, hn⟩ := hreads _ hyear.2
            exact ⟨_, congrArg (Option.map _) hn⟩
          · exact ⟨_, rfl⟩
      rw [List.foldlM_cons, hwrite]
      exact ih filters'
  unfold generativeFilters
  rw [hmerged]
  dsimp only [Option.bind_eq_bind, Option.bind_some]
  obtain ⟨filters, hfilters⟩ := hwrites (settledAssumptions S input (if d.kind = .refines then
    (assumptionsForCarryForward S.policy S.texts merged, [], false)
    else assumptionsForFresh S.policy S.texts input.question merged input.today).1).1 merged
  rw [hfilters]
  exact ⟨_, rfl⟩

theorem exists_merged (S : AskSettings) (input : AskInput) (h : d.periodDelta = 0 ∨ yearKey ∉ input.contextFilters ∧
    ∃ y, d.inheritedFilters.lookup yearKey = some (.int y)) : ∃ merged, mergedFilters S d input = some merged := by
  unfold mergedFilters
  split
  · rename_i hshift
    obtain ⟨hsilent, y, hyear⟩ := h.resolve_left hshift.2
    have hbase : baseYear S input (d.inheritedFilters.update input.contextFilters) = some y := by
      rw [baseYear, lookup_update, AList.lookup_eq_none.mpr hsilent, Option.none_or, hyear]
      exact S.texts.int_int y
    exact ⟨_, congrArg (Option.map _) hbase⟩
  · exact ⟨_, rfl⟩

/-- **A turn does not raise** where digits are numbers and a year that is shifted is one. -/
theorem exists_resolved (S : AskSettings) (input : AskInput) (hreads : ReadsDigits S.texts)
    (h : yearShift input.question = 0 ∨
      yearKey ∉ input.contextFilters ∧ ∃ y, r.inForce.lookup yearKey = some (.int y))
    (hturn : r.turns ≠ []) (href : IsRefinement input.question) : ∃ f, resolveTurn S r input = some f := by
  obtain ⟨hresolved, -, -⟩ | ⟨d, hbasis, hresolved⟩ := refinement_cases S hturn href
  · exact ⟨_, hresolved⟩
  · rw [hresolved]
    obtain ⟨merged, hmerged⟩ : ∃ merged, mergedFilters S d input = some merged := by
      by_cases hcte : containsAny input.question cteRefinementCues = true
      · exact exists_merged S input (.inl (hbasis.shift.trans (if_pos hcte)))
      · refine exists_merged S input (h.imp hbasis.shift.trans fun ⟨hsilent, y, hy⟩ => ⟨hsilent, y, ?_⟩)
        rw [hbasis.filters, hy]
        exact congrArg some (if_neg hcte)
    exact exists_generatedFilters hreads hmerged

end Progress

/-! ## Runs of refinements -/

section Runs

variable {S : AskSettings} {r r' : AskRecord} {l : Asking} {key : String}

/-- A refinement that says nothing of a filter: neither the question nor an override. -/
structure Leaves (S : AskSettings) (key : String) (input : AskInput) : Prop where
  refines : IsRefinement input.question
  silent : key ∉ input.contextFilters
  kept : input.overrides.lookup (S.texts.displayField S.policy key) = none
  apart : KeysApart S input.contextFilters

/-- A filter before and after some refinements. -/
def Carried (S : AskSettings) (key : String) (shift : ℤ) (before after : Option PyValue) : Prop :=
  if key = yearKey then ∀ y, before = some (.int y) → after = some (.int (y + shift))
  else if key = S.policy.filterKey then after.map S.texts.str = before.map S.texts.str
  else after = before

theorem Carried.refl (v : Option PyValue) : Carried S key 0 v v := by
  unfold Carried
  split
  · intro y hy
    rw [hy, Int.add_zero]
  · split <;> rfl

theorem Carried.trans {shift shift' : ℤ} {before between after : Option PyValue}
    (h : Carried S key shift before between) (h' : Carried S key shift' between after) :
    Carried S key (shift + shift') before after := by
  unfold Carried at *
  split
  · rename_i hyear
    rw [if_pos hyear] at h h'
    intro y hy
    rw [h' _ (h y hy), Int.add_assoc]
  · rename_i hyear
    rw [if_neg hyear] at h h'
    split
    · rename_i hscope
      rw [if_pos hscope] at h h'
      exact h'.trans h
    · rename_i hscope
      rw [if_neg hscope] at h h'
      exact h'.trans h

/-- The filters a refinement leaves are still shown apart. -/
theorem keysApart_inForce (hpolicy : PolicyApart S.policy) (hturn : r.turns ≠ []) (hkeys : KeysApart S r.inForce)
    (href : IsRefinement l.input.question) (hcontext : KeysApart S l.input.contextFilters) {f : TurnFilters}
    (h : resolveTurn S r l.input = some f) : KeysApart S f.filters := by
  obtain ⟨hresolved, -, -⟩ | ⟨d, hbasis, hresolved⟩ := refinement_cases S hturn href
  · cases hresolved.symm.trans h
    show KeysApart S (r.basis l.input.question).inheritedFilters
    rw [(basis_refines hturn href).filters]
    exact hkeys
  · obtain ⟨merged, hmerged, hfrom⟩ := generated_from hpolicy hbasis.kind (hresolved.symm.trans h)
    have hapart := keysApart_merged hmerged hcontext (hbasis.keysApart hkeys)
    intro k hk hscope hyear
    refine hapart k ?_ hscope hyear
    rw [← AList.lookup_isSome, ← (hfrom hapart).other k hscope hyear]
    exact AList.lookup_isSome.mpr hk

/-- **One refinement** that leaves a filter alone. -/
theorem askTurn_carried (hpolicy : PolicyApart S.policy) (hturn : r.turns ≠ []) (hkeys : KeysApart S r.inForce)
    (hleaves : Leaves S key l.input) {f : TurnFilters} (h : resolveTurn S r l.input = some f) :
    Carried S key (yearShift l.input.question) (r.inForce.lookup key) (f.filters.lookup key) := by
  obtain ⟨hresolved, hshift, -⟩ | ⟨d, hbasis, hresolved⟩ := refinement_cases S hturn hleaves.refines
  · cases hresolved.symm.trans h
    show Carried S key _ _ ((r.basis l.input.question).inheritedFilters.lookup key)
    rw [hshift, (basis_refines hturn hleaves.refines).filters]
    exact Carried.refl _
  · obtain ⟨merged, hmerged, hfrom⟩ := generated_from hpolicy hbasis.kind (hresolved.symm.trans h)
    have hinherited : d.inheritedFilters.lookup key = r.inForce.lookup key := by
      have hid : takenOver S l.input key = id := funext fun v => takenOver_of_silent hleaves.kept
      rw [hbasis.filters, hid, Option.map_id]
      rfl
    have hfrom := hfrom (keysApart_merged hmerged hleaves.apart (hbasis.keysApart hkeys))
    unfold Carried
    split
    · rename_i hyear
      subst hyear
      intro y hy
      have hmoved := lookup_merged_year hmerged hbasis.kind hleaves.silent (hinherited.trans hy)
      have hshown : shownText S l.input.overrides "period" (.int (y + d.periodDelta)) =
          toString (y + d.periodDelta) := by
        rw [shownText, ← displayField_year (S := S), hleaves.kept, Option.getD_none, S.texts.str_int]
      rw [hfrom.year, hmoved, Option.map_some, hshown, readYear_int, hbasis.shift]
    · rename_i hyear
      have hkept : merged.lookup key = r.inForce.lookup key := by
        rw [lookup_merged hmerged (.inl hyear), AList.lookup_eq_none.mpr hleaves.silent, Option.none_or, hinherited]
      split
      · rename_i hscope
        subst hscope
        rw [hfrom.scope, hkept, Option.map_map]
        refine congrArg (Option.map · _) (funext fun v => ?_)
        rw [Function.comp_apply, S.texts.str_str, shownText, ← displayField_scope hpolicy, hleaves.kept]
        rfl
      · rename_i hscope
        rw [hfrom.other key hscope hyear, hkept]

/-- The years that the questions of some turns name. -/
def yearShifts (ls : List Asking) : ℤ := ls.foldr (fun l shift => yearShift l.input.question + shift) 0

/-- **A filter over a run of refinements that leave it alone**, from a record with turns: the year moves by
the years the questions name, the scope keeps its text, any other filter its value. -/
theorem refinements_carry (hpolicy : PolicyApart S.policy) (hturn : r.turns ≠ []) (hkeys : KeysApart S r.inForce)
    {ls : List Asking} (h : RunWhere (askTurn S) (fun _ l => Leaves S key l.input) r ls r') :
    Carried S key (yearShifts ls) (r.inForce.lookup key) (r'.inForce.lookup key) := by
  induction h with
  | nil r => exact Carried.refl _
  | @cons r r₁ r' l ls hleaves hstep _ ih =>
    obtain ⟨f, hresolved, rfl⟩ := Option.map_eq_some_iff.mp hstep
    have hnext : (l.appended r f.filters).turns ≠ [] := List.concat_ne_nil _ _
    have hapart := keysApart_inForce hpolicy hturn hkeys hleaves.refines hleaves.apart hresolved
    have hrest := ih hnext (inForce_appended.symm ▸ hapart)
    rw [inForce_appended] at hrest
    exact (askTurn_carried hpolicy hturn hkeys hleaves hresolved).trans hrest

theorem refinements_carry_lastYear :
    ∃ r', RunWhere (askTurn ringSettings) (fun _ l => Leaves ringSettings yearKey l.input) cementSession
        [askedTurn "همون پارسال"] r' ∧
      Carried ringSettings yearKey (-1) (some (.int 1402)) (r'.inForce.lookup yearKey) := by
  have hyear : cementSession.inForce.lookup yearKey = some (.int 1402) := by
    rw [cementSession, inForce_appended]
    rfl
  have href : IsRefinement "همون پارسال" := .inr (by decide)
  obtain ⟨f, hresolved⟩ := exists_resolved ringSettings (askedAlone "همون پارسال") asciiTexts_readsDigits
    (.inr ⟨AList.notMem_empty _, 1402, hyear⟩) turns_cementSession href
  have hleaves : Leaves ringSettings yearKey (askedAlone "همون پارسال") :=
    ⟨href, AList.notMem_empty _, rfl, fun _ hmem => absurd hmem (AList.notMem_empty _)⟩
  have hrun : RunWhere (askTurn ringSettings) (fun _ l => Leaves ringSettings yearKey l.input) cementSession
      [askedTurn "همون پارسال"] _ :=
    .cons hleaves (congrArg (Option.map _) hresolved) (.nil _)
  have hcarried := refinements_carry apart_ringSettings turns_cementSession keysApart_cementSession hrun
  rw [hyear] at hcarried
  have hshift : yearShifts [askedTurn "همون پارسال"] = -1 := by decide
  exact ⟨_, hrun, hshift ▸ hcarried⟩

end Runs

/-! ## Overrides of what a refinement inherits -/

section Overrides

variable {S : AskSettings} {r : AskRecord} {input : AskInput} {f : TurnFilters} {key value : String} {v : PyValue}

theorem inheritedFilters_eq (h : (r.basis input.question).kind = .refines) :
    (r.basis input.question).inheritedFilters = r.inForce := by
  unfold AskRecord.basis classifyBasis at h ⊢
  cases hlast : r.lastTurn with
  | none =>
    rw [hlast] at h
    cases h
  | some t =>
    rw [hlast] at h
    dsimp only at h ⊢
    split
    · rfl
    · rename_i hcte
      rw [if_neg hcte] at h
      split
      · rfl
      · rename_i hcarry
        rw [if_neg hcarry] at h
        cases h

/-- A composed turn is composed because nothing overridden contradicts it. -/
theorem Composed.conflict (h : Composed S r input) :
    settledDecision S (r.basis input.question) input.overrides = r.basis input.question ∧
      (r.basis input.question).kind = .refines ∧
      cteOverrideConflict S.policy S.texts r.inForce input.overrides = none := by
  by_cases hcte : (r.basis input.question).kind = .refines ∧ (r.basis input.question).composition = .cte
  · cases hconflict : cteOverrideConflict S.policy S.texts r.inForce input.overrides with
    | none => exact ⟨settledDecision_eq S _ _ fun _ => inheritedFilters_eq hcte.1 ▸ hconflict, hcte.1, rfl⟩
    | some filters =>
      obtain ⟨-, hcomposed⟩ := h
      rw [settledDecision_conflict hcte (inheritedFilters_eq hcte.1 ▸ hconflict)] at hcomposed
      cases hcomposed
  · have hsettled : settledDecision S (r.basis input.question) input.overrides = r.basis input.question := if_neg hcte
    unfold Composed at h
    rw [hsettled] at h
    exact absurd h hcte

/-- An override of a filter that is no conflict says the filter's text. -/
theorem value_of_noConflict (hover : input.overrides.lookup (S.texts.displayField S.policy key) = some value)
    (h : conflictingEntry S.policy S.texts input.overrides ⟨key, v⟩ = none) : S.texts.str v = value := by
  unfold conflictingEntry at h
  rw [hover] at h
  exact (not_not.mp fun hne => Option.filter_eq_none_iff.mp h value rfl (decide_eq_true (Ne.symm hne)))

/-- **A composed turn shows the filters its rows were selected with**: what it remembers is what was in
force, and each filter is shown with its value, whatever the memory and the overrides. -/
theorem composed_shows (h : Composed S r input) :
    ∃ f scope measure shown, resolveTurn S r input = some f ∧ f.filters = r.inForce ∧
      f.assumptions = scope :: measure :: shown ∧
      shown.map (fun a => (a.field, a.value)) =
        r.inForce.entries.map fun e => (S.texts.displayField S.policy e.1, S.texts.str e.2) := by
  obtain ⟨hsettled, hkind, hconflict⟩ := h.conflict
  have hinherited := inheritedFilters_eq hkind
  have hresolved := resolveTurn_of hsettled
  rw [if_pos (hsettled ▸ h)] at hresolved
  have hstay := applyMemory_stays S.memoryKeys
    (assumptionsForCteRefinement S.policy S.texts input.question r.inForce) (effectiveMemory S input)
    input.deniedColumns
  unfold assumptionsForCteRefinement at hstay
  obtain ⟨scope, after, -, htail, happlied⟩ := List.forall₂_cons_left_iff.mp hstay
  obtain ⟨measure, carried, -, hcarried, rfl⟩ := List.forall₂_cons_left_iff.mp htail
  have hsession : ∀ a ∈ assumptionsForCarryForward S.policy S.texts r.inForce, a.source ≠ .default := by
    intro a ha hdefault
    obtain ⟨e, -, rfl⟩ := List.mem_map.mp ha
    cases hdefault
  refine ⟨_, overridden input.overrides scope, overridden input.overrides measure,
    carried.map (overridden input.overrides), hresolved, hinherited, ?_, ?_⟩
  · show applyOverrides (applyMemoryToAssumptions _ (assumptionsForCteRefinement _ _ _ _) _ _).assumptions _ = _
    rw [hinherited]
    exact congrArg (applyOverrides · input.overrides) happlied
  · rw [SettledStay.eq hcarried hsession, assumptionsForCarryForward, List.map_map, List.map_map]
    refine List.map_congr_left fun e he => ?_
    have hnone := conflictingEntry_eq_none hconflict he
    rw [Function.comp_apply, Function.comp_apply, field_overridden, value_overridden rfl]
    cases hover : input.overrides.lookup (S.texts.displayField S.policy e.1) with
    | none => rfl
    | some value => rw [value_of_noConflict hover hnone, Option.getD_some]

theorem composed_cement : Composed ringSettings cementSession (askedAlone "among those") := by
  have hcte : containsAny "among those" cteRefinementCues = true := by decide
  have hbasis := basis_refines turns_cementSession (.inl hcte)
  have hconflict : cteOverrideConflict ringSettings.policy asciiTexts cementSession.inForce ∅ = none := by
    rw [cementSession, inForce_appended]
    rfl
  have hsettled := settledDecision_eq ringSettings (cementSession.basis "among those") ∅
    fun _ => hbasis.filters ▸ hconflict
  exact ⟨(congrArg BasisDecision.kind hsettled).trans hbasis.kind,
    (congrArg BasisDecision.composition hsettled).trans (hbasis.composition.mpr hcte)⟩

theorem composed_shows_cement : ∃ f scope measure shown,
    resolveTurn ringSettings cementSession (askedAlone "among those") = some f ∧ f.filters = cementSession.inForce ∧
      f.assumptions = scope :: measure :: shown ∧
      shown.map (fun a => (a.field, a.value)) = cementSession.inForce.entries.map fun e =>
        (asciiTexts.displayField ringSettings.policy e.1, asciiTexts.str e.2) :=
  composed_shows composed_cement

/-- A composition that is given up has an overridden filter as overridden. -/
theorem str_takenOver (hcte : containsAny input.question cteRefinementCues = true)
    (hover : input.overrides.lookup (S.texts.displayField S.policy key) = some value) :
    S.texts.str (takenOver S input key v) = value := by
  unfold takenOver
  rw [if_pos hcte]
  cases hconflict : conflictingEntry S.policy S.texts input.overrides ⟨key, v⟩ with
  | none => exact value_of_noConflict hover hconflict
  | some text =>
    unfold conflictingEntry at hconflict
    rw [hover] at hconflict
    obtain ⟨hsame, -⟩ := Option.filter_eq_some_iff.mp hconflict
    cases hsame
    exact S.texts.str_str value

/-- **An override of an inherited filter is in force after the turn**, in a question about the rows of the
turn before: as its text, or a period of digits as its year. -/
theorem override_inForce (hpolicy : PolicyApart S.policy) (hturn : r.turns ≠ []) (hkeys : KeysApart S r.inForce)
    (hcontext : KeysApart S input.contextFilters) (hcte : containsAny input.question cteRefinementCues = true)
    (hv : r.inForce.lookup key = some v) (hsilent : key ∉ input.contextFilters)
    (hover : input.overrides.lookup (S.texts.displayField S.policy key) = some value)
    (h : resolveTurn S r input = some f) :
    ∃ v', f.filters.lookup key = some v' ∧ (S.texts.str v' = value ∨ readYear S value = some v') := by
  obtain ⟨hresolved, -, hconflict⟩ | ⟨d, hbasis, hresolved⟩ := refinement_cases S hturn (.inl hcte)
  · cases hresolved.symm.trans h
    have hnone := conflictingEntry_eq_none hconflict (AList.mem_lookup_iff.mp hv)
    refine ⟨v, ?_, .inl (value_of_noConflict hover hnone)⟩
    show (r.basis input.question).inheritedFilters.lookup key = _
    rw [(basis_refines hturn (.inl hcte)).filters, hv]
  · obtain ⟨merged, hmerged, hfrom⟩ := generated_from hpolicy hbasis.kind (hresolved.symm.trans h)
    have hfrom := hfrom (keysApart_merged hmerged hcontext (hbasis.keysApart hkeys))
    have hshift : d.periodDelta = 0 := hbasis.shift.trans (if_pos hcte)
    have htaken : merged.lookup key = some (takenOver S input key v) := by
      rw [lookup_merged hmerged (.inr hshift), AList.lookup_eq_none.mpr hsilent, Option.none_or, hbasis.filters, hv]
      rfl
    have htext := str_takenOver (v := v) hcte hover
    by_cases hyear : key = yearKey
    · subst hyear
      rw [displayField_year] at hover
      have hshown : shownText S input.overrides "period" (takenOver S input yearKey v) = value := by
        rw [shownText, hover, Option.getD_some]
      rw [hfrom.year, htaken, Option.map_some, hshown]
      cases hread : readYear S value with
      | none => exact ⟨_, rfl, .inl htext⟩
      | some year => exact ⟨_, rfl, .inr rfl⟩
    · by_cases hscope : key = S.policy.filterKey
      · subst hscope
        rw [displayField_scope hpolicy] at hover
        have hshown : shownText S input.overrides S.policy.fieldName
            (takenOver S input S.policy.filterKey v) = value := by
          rw [shownText, hover, Option.getD_some]
        rw [hfrom.scope, htaken, Option.map_some, hshown]
        exact ⟨_, rfl, .inl (S.texts.str_str value)⟩
      · rw [hfrom.other key hscope hyear, htaken]
        exact ⟨_, rfl, .inl htext⟩

/-- The same rows, of steel. -/
def steelInstead : AskInput := { askedAlone "among those" with overrides := AList.singleton "ring" "steel" }

theorem override_inForce_steel : ∃ f v', resolveTurn ringSettings cementSession steelInstead = some f ∧
      f.filters.lookup "Ring" = some v' ∧
      (asciiTexts.str v' = "steel" ∨ readYear ringSettings "steel" = some v') := by
  have hring : cementSession.inForce.lookup "Ring" = some (.str "cement") := by
    rw [cementSession, inForce_appended]
    rfl
  have hcte : containsAny "among those" cteRefinementCues = true := by decide
  obtain ⟨f, hresolved⟩ := exists_resolved ringSettings steelInstead asciiTexts_readsDigits
    (.inl (by decide)) turns_cementSession (.inl hcte)
  have hover : steelInstead.overrides.lookup (ringSettings.texts.displayField ringSettings.policy "Ring") =
      some "steel" := rfl
  obtain ⟨v', hv', hvalue⟩ := override_inForce apart_ringSettings turns_cementSession keysApart_cementSession
    (fun _ hmem => absurd hmem (AList.notMem_empty _)) hcte hring (AList.notMem_empty _) hover hresolved
  exact ⟨f, v', hresolved, hv', hvalue⟩

end Overrides

end LocalSqlAgent
