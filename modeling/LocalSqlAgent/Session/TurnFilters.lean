import LocalSqlAgent.Session.Memory
import LocalSqlAgent.Session.Rehydration

/-! # The filters of a turn

What `ask` of `session.engine` makes of the filters before it builds a prompt: the ones inherited from the
turn before, the ones of the question, a shift of the year, the assumptions shown to the user with what is
remembered of them, and the user's overrides. The values of some assumptions become filters at the end, and
all of them are what the next turn inherits.

* **`resolveTurn`**: the filters and the assumptions of a turn, from the record and the request.
* **`remembered`**: an assumption after the memory, by the first entry that may be applied to its field.
* **`applyMemory_stays`**, **`applyMemory_settled`**: what the memory leaves alone, and what it settles.
* **`lookup_writes_other`**, **`lookup_writes_scope`**, **`lookup_writes_year`**: what the assumptions write into
  the filters, key by key. -/

namespace LocalSqlAgent

/-! ## The policy and the texts -/

/-- `default_scope` of the session policy. -/
structure ScopePolicy where
  /-- `DEFAULT_SCOPE_FILTER_KEY`. -/
  filterKey : String
  /-- `DEFAULT_SCOPE_FIELD_NAME`. -/
  fieldName : String
  /-- `DEFAULT_SCOPE_LABEL`. -/
  label : String
  /-- `DEFAULT_SCOPE_OPTIONS`. -/
  options : List String
  /-- `DEFAULT_SCOPE_CLARIFICATION_PROMPT`. -/
  clarificationPrompt : String

/-- What Python's conversions do, with the laws the proofs rest on. -/
structure PyTexts where
  /-- `str.lower`. -/
  lower : String → String
  /-- `str(value)`. -/
  str : PyValue → String
  /-- `int(value)`; `none` where it raises. -/
  int : PyValue → Option ℤ
  /-- A character `str.isdigit` accepts. -/
  isDigit : Char → Bool
  /-- The value of a decimal digit to `int`. -/
  decimal : Char → Option ℕ
  /-- A string is its own text. -/
  str_str : ∀ s, str (.str s) = s
  /-- An integer is written in decimal. -/
  str_int : ∀ n, str (.int n) = toString n
  /-- An integer is its own value. -/
  int_int : ∀ n, int (.int n) = some n
  /-- The ASCII digits are digits. -/
  isDigit_ascii : ∀ c : Char, c.isDigit = true → isDigit c = true
  /-- Their values. -/
  decimal_ascii : ∀ c : Char, c.isDigit = true → decimal c = some (c.toNat - '0'.toNat)
  /-- A minus sign is none. -/
  isDigit_minus : isDigit '-' = false

/-- `date`, of a year after the beginning of the Persian calendar. -/
structure CalendarDate where
  year : ℕ
  month : ℕ
  day : ℕ
  /-- Some time ago. -/
  modern : 622 < year

/-- `"PersianYear"`. -/
def yearKey : String := "PersianYear"

namespace PyTexts

variable (T : PyTexts)

/-- `isdigit()` of a text. -/
def isDigits (text : String) : Bool := text ≠ "" && text.toList.all T.isDigit

/-- `int(text)` of a text of digits. -/
def readDigits (text : String) : Option ℤ :=
  (text.toList.mapM T.decimal).map fun digits => (digits.foldl (fun n d => 10 * n + d) 0 : ℕ)

/-- `_display_field`: the name a filter is shown under. -/
def displayField (P : ScopePolicy) (key : String) : String :=
  if key = yearKey then "period" else if key = P.filterKey then P.fieldName else T.lower key

end PyTexts

/-! ## Assumptions -/

/-- `_MEASURE_CUES`. -/
def measureCues : List (List String × String) :=
  [(["حجم", "وزن"], "حجم معامله (HallMatchingWeight)"), (["ارزش", "ریال"], "ارزش ریالی معامله"),
    (["تعداد"], "تعداد قرارداد")]

/-- `DEFAULT_MEASURE`. -/
def defaultMeasure : String := "ارزش ریالی معامله"

/-- `MEASURE_OPTIONS`. -/
def measureOptions : List String := ["ارزش ریالی معامله", "حجم معامله", "تعداد قرارداد"]

/-- `RANK_WORDS`. -/
def rankWords : List String := ["برتر", "بیشترین", "کمترین", "بالاترین", "top", "best"]

/-- `resolve_measure`. -/
def resolveMeasure (question : String) : String × AssumptionSource :=
  match measureCues.find? fun e => containsAny question e.1 with
  | some e => (e.2, .question)
  | none => (defaultMeasure, .default)

/-- `is_ranking_question`. -/
def isRankingQuestion (question : String) : Bool := containsAny question rankWords

/-- `to_persian_digits`. -/
def toPersianDigits (n : ℕ) : String :=
  String.ofList ((Nat.toDigits 10 n).map fun c => "۰۱۲۳۴۵۶۷۸۹".toList.getD (c.toNat - '0'.toNat) c)

/-- `gregorian_to_jalali_year`. -/
def jalaliYear (d : CalendarDate) : ℕ :=
  if 3 < d.month ∨ (d.month = 3 ∧ 21 ≤ d.day) then d.year - 621 else d.year - 622

/-- The label of `default_period_label`. -/
def defaultPeriodLabel (today : CalendarDate) : String := "سال جاری (" ++ toPersianDigits (jalaliYear today) ++ ")"

section Assumptions

variable (P : ScopePolicy) (T : PyTexts)

/-- The assumption about the scope of a ranking question. -/
def scopeAssumption (filters : OrderedDict String PyValue) : Assumption :=
  match filters.lookup P.filterKey with
  | some value => { field := P.fieldName, value := T.str value, source := .question }
  | none => { field := P.fieldName, value := P.label, source := .default }

/-- The assumption about the measure. -/
def measureAssumption (question : String) : Assumption :=
  { field := "measure", value := (resolveMeasure question).1, source := (resolveMeasure question).2 }

/-- The assumption about the period, where the year is open. -/
def periodAssumptions (today : CalendarDate) (filters : OrderedDict String PyValue) : List Assumption :=
  if yearKey ∈ filters then [] else [{ field := "period", value := defaultPeriodLabel today, source := .default }]

/-- **`assumptions_for_fresh`.** -/
def assumptionsForFresh (question : String) (filters : OrderedDict String PyValue) (today : CalendarDate) :
    List Assumption × List Clarification × Bool :=
  if isRankingQuestion question then
    (scopeAssumption P T filters :: measureAssumption question :: periodAssumptions today filters,
      (if P.filterKey ∈ filters then [] else [⟨P.fieldName, P.clarificationPrompt, P.options⟩]) ++
        (if (resolveMeasure question).2 = .default then
          [⟨"measure", "«برتر» بر اساس کدام معیار؟", measureOptions⟩] else []),
      true)
  else ([], [], false)

/-- **`assumptions_for_carry_forward`**: each filter, under the name it is shown under. -/
def assumptionsForCarryForward (filters : OrderedDict String PyValue) : List Assumption :=
  filters.entries.map fun e => { field := T.displayField P e.1, value := T.str e.2, source := .session }

/-- **`assumptions_for_cte_refinement`.** -/
def assumptionsForCteRefinement (question : String) (inherited : OrderedDict String PyValue) : List Assumption :=
  { field := "scope", source := .policy, editable := false,
    value := "همهٔ سطرهای منطبق با فیلتر قبلی، نه فقط سطرهای نمایش‌داده‌شدهٔ پرسش قبل" } ::
    measureAssumption question :: assumptionsForCarryForward P T inherited

/-- An assumption after `_apply_overrides`. -/
def overridden (overrides : OrderedDict String String) (a : Assumption) : Assumption :=
  match overrides.lookup a.field with
  | some value => if a.editable then { a with value := value, source := .question } else a
  | none => a

/-- `_apply_overrides`. -/
def applyOverrides (assumptions : List Assumption) (overrides : OrderedDict String String) : List Assumption :=
  assumptions.map (overridden overrides)

/-- The conflicts of an override with an inherited filter: the filters with the overriding values. -/
def conflictingEntry (overrides : OrderedDict String String) (e : DictEntry String PyValue) : Option String :=
  (overrides.lookup (T.displayField P e.1)).filter fun value => value ≠ T.str e.2

/-- **`_cte_override_conflict`**: the inherited filters as overridden, when an override says another value. -/
def cteOverrideConflict (inherited : OrderedDict String PyValue) (overrides : OrderedDict String String) :
    Option (OrderedDict String PyValue) :=
  if inherited.entries.any fun e => (conflictingEntry P T overrides e).isSome then
    some (inherited.entries.foldl (fun d e =>
      ((conflictingEntry P T overrides e).map PyValue.str).elim d fun value => d.assign e.1 value) inherited)
  else none

end Assumptions

/-! ## A turn -/

/-- `d.update(other)`. -/
def OrderedDict.update {κ ν : Type} [DecidableEq κ] (d other : OrderedDict κ ν) : OrderedDict κ ν :=
  other.entries.foldl (fun d e => d.assign e.1 e.2) d

/-- What a request brings, and what the retrieval finds. -/
structure AskInput where
  /-- `question`. -/
  question : String
  /-- `context.filters`. -/
  contextFilters : OrderedDict String PyValue
  /-- `assumption_overrides`; none are no overrides. -/
  overrides : OrderedDict String String
  /-- `memory_entries`; none are no entries. -/
  memoryEntries : OrderedDict String MemoryEntry
  /-- `denied_columns`. -/
  deniedColumns : Option (List String)
  /-- `date.today()`. -/
  today : CalendarDate

/-- What the turn works with, besides the record. -/
structure AskSettings where
  /-- The session policy. -/
  policy : ScopePolicy
  /-- Python's conversions. -/
  texts : PyTexts
  /-- `get_memory_keys()`. -/
  memoryKeys : OrderedDict String MemoryKey
  /-- `settings.memory_enabled`. -/
  memoryEnabled : Bool

/-- The filters and assumptions of a turn. -/
structure TurnFilters where
  /-- `ambiguity.assumptions`. -/
  assumptions : List Assumption
  /-- `ambiguity.clarifications`. -/
  clarifications : List Clarification
  /-- `ambiguity.is_ambiguous`. -/
  isAmbiguous : Bool
  /-- The warnings about entries of the memory. -/
  warnings : List String
  /-- `memory_filters`: what the turn remembers, and what the prompt of a generated statement is given. -/
  filters : OrderedDict String PyValue

section Turn

variable (S : AskSettings)

/-- `effective_memory_entries`. -/
def effectiveMemory (input : AskInput) : OrderedDict String MemoryEntry :=
  if S.memoryEnabled then input.memoryEntries else ∅

/-- The assumptions a turn starts from, after the memory and the overrides. -/
def settledAssumptions (input : AskInput) (assumptions : List Assumption) : List Assumption × List String :=
  let applied := applyMemoryToAssumptions S.memoryKeys assumptions (effectiveMemory S input) input.deniedColumns
  (applyOverrides applied.assumptions input.overrides, applied.warnings)

/-- The year a relative period starts from. -/
def baseYear (input : AskInput) (merged : OrderedDict String PyValue) : Option ℤ :=
  match merged.lookup yearKey with
  | none | some .none => some (jalaliYear input.today)
  | some value => S.texts.int value

/-- The inherited filters with the question's own over them, the year shifted. -/
def mergedFilters (decision : BasisDecision) (input : AskInput) : Option (OrderedDict String PyValue) :=
  let merged := decision.inheritedFilters.update input.contextFilters
  if decision.kind = .refines ∧ decision.periodDelta ≠ 0 then
    (baseYear S input merged).map fun year => merged.assign yearKey (.int (year + decision.periodDelta))
  else some merged

/-- What a settled assumption writes into the filters; `none` where `int` raises. -/
def writeAssumption (filters : OrderedDict String PyValue) (a : Assumption) : Option (OrderedDict String PyValue) :=
  if a.field = S.policy.fieldName then some (filters.assign S.policy.filterKey (.str a.value))
  else if a.field = "period" ∧ S.texts.isDigits (stripText a.value) = true then
    (S.texts.readDigits (stripText a.value)).map fun year => filters.assign yearKey (.int year)
  else some filters

/-- **The filters of `_handle_generative`**; `none` where `int` raises. -/
def generativeFilters (decision : BasisDecision) (input : AskInput) : Option TurnFilters := do
  let merged ← mergedFilters S decision input
  let stated := if decision.kind = .refines then (assumptionsForCarryForward S.policy S.texts merged, [], false)
    else assumptionsForFresh S.policy S.texts input.question merged input.today
  let settled := settledAssumptions S input stated.1
  let filters ← settled.1.foldlM (writeAssumption S) merged
  return {
    assumptions := settled.1
    clarifications := stated.2.1
    isAmbiguous := if decision.kind = .refines then settled.1 ≠ [] else stated.2.2
    warnings := settled.2
    filters }

/-- **The filters of `_handle_cte_refinement`.** -/
def cteFilters (decision : BasisDecision) (input : AskInput) : TurnFilters :=
  let settled := settledAssumptions S input
    (assumptionsForCteRefinement S.policy S.texts input.question decision.inheritedFilters)
  { assumptions := settled.1, clarifications := [], isAmbiguous := true, warnings := settled.2
    filters := decision.inheritedFilters }

/-- The decision of `ask`: a composition is given up when an override contradicts what it would inherit. -/
def settledDecision (decision : BasisDecision) (overrides : OrderedDict String String) : BasisDecision :=
  if decision.kind = .refines ∧ decision.composition = .cte then
    match cteOverrideConflict S.policy S.texts decision.inheritedFilters overrides with
    | some filters => { decision with composition := .none, inheritedFilters := filters }
    | none => decision
  else decision

/-- **The filters of a turn of `ask`.** -/
def resolveTurn (r : AskRecord) (input : AskInput) : Option TurnFilters :=
  let decision := settledDecision S (r.basis input.question) input.overrides
  if decision.kind = .refines ∧ decision.composition = .cte then some (cteFilters S decision input)
  else generativeFilters S decision input

end Turn

/-! ## The memory -/

section Memory

variable (keys : OrderedDict String MemoryKey) (denied : List String)

/-- An entry may be applied: its key is declared and its column not denied. -/
def isUsable (e : DictEntry String MemoryEntry) : Bool := (keys.lookup e.1).any fun key => key.column ∉ denied

/-- The entries that may be applied, in order. -/
def usableEntries (memory : List (DictEntry String MemoryEntry)) : List MemoryEntry :=
  (memory.filter (isUsable keys denied)).map (·.2)

/-- **An assumption after the memory**: a default takes the value of the first entry of its field. -/
def remembered (entries : List MemoryEntry) (a : Assumption) : Assumption :=
  if a.source = .default then
    match entries.find? fun e => e.field = a.field with
    | some e => { a with value := e.value, source := .memory }
    | none => a
  else a

theorem field_remembered (entries : List MemoryEntry) (a : Assumption) : (remembered entries a).field = a.field := by
  unfold remembered
  split
  · split <;> rfl
  · rfl

variable {keys denied}

/-- With no two assumptions of a field, the entry replaces the default of its field. -/
theorem replaceDefault_eq (entry : MemoryEntry) {as : List Assumption} (h : (as.map (·.field)).Nodup) :
    (replaceDefault entry as).getD as = as.map (remembered [entry]) := by
  induction as with
  | nil => rfl
  | cons a rest ih =>
    obtain ⟨hnew, hrest⟩ := List.nodup_cons.mp h
    rw [replaceDefault, List.map_cons]
    split
    · rename_i hhere
      -- nothing else has the field
      have hothers : rest.map (remembered [entry]) = rest := by
        refine (List.map_congr_left fun b hb => ?_).trans (List.map_id rest)
        have hne : ¬ entry.field = b.field := fun heq => hnew (List.mem_map.mpr ⟨b, hb, heq.symm.trans hhere.1.symm⟩)
        unfold remembered
        rw [List.find?_cons_of_neg (by simpa using hne)]
        split <;> rfl
      have hself : remembered [entry] a = { a with value := entry.value, source := .memory } := by
        unfold remembered
        rw [if_pos hhere.2, List.find?_cons_of_pos (by simpa using hhere.1.symm)]
      rw [Option.getD_some, hothers, hself]
    · rename_i hnot
      have hself : remembered [entry] a = a := by
        unfold remembered
        split
        · rename_i hdefault
          rw [List.find?_cons_of_neg (by simpa using fun heq => hnot ⟨Eq.symm heq, hdefault⟩)]
          rfl
        · rfl
      rw [← ih hrest, hself]
      cases replaceDefault entry rest <;> rfl

/-- Some entries, then more. -/
theorem remembered_append (first later : List MemoryEntry) (a : Assumption) :
    remembered later (remembered first a) = remembered (first ++ later) a := by
  unfold remembered
  by_cases hdefault : a.source = .default
  · rw [if_pos hdefault, if_pos hdefault, List.find?_append]
    cases first.find? fun e => e.field = a.field with
    | some e => rfl
    | none => exact if_pos hdefault
  · rw [if_neg hdefault, if_neg hdefault, if_neg hdefault]

theorem remembered_nil (a : Assumption) : remembered [] a = a := by
  unfold remembered
  split <;> rfl

variable (keys denied) in
/-- What one turn of the loop does to assumptions of different fields. -/
theorem assumptions_step {state : AppliedMemory} (h : (state.assumptions.map (·.field)).Nodup)
    (e : DictEntry String MemoryEntry) : (AppliedMemory.step keys denied state e).assumptions =
      state.assumptions.map (remembered (usableEntries keys denied [e])) := by
  unfold AppliedMemory.step usableEntries
  cases hkey : keys.lookup e.1 with
  | none =>
    have hout : ¬ isUsable keys denied e = true := by rw [isUsable, hkey]; exact Bool.false_ne_true
    rw [List.filter_cons_of_neg hout]
    exact ((List.map_congr_left fun a _ => remembered_nil a).trans (List.map_id _)).symm
  | some key =>
    dsimp only
    split
    · rename_i hdenied
      have hout : ¬ isUsable keys denied e = true := by
        rw [isUsable, hkey, Option.any_some, decide_eq_true_iff]
        exact not_not.mpr hdenied
      rw [List.filter_cons_of_neg hout]
      exact ((List.map_congr_left fun a _ => remembered_nil a).trans (List.map_id _)).symm
    · rename_i hallowed
      have hin : isUsable keys denied e = true := by
        rw [isUsable, hkey, Option.any_some]
        exact decide_eq_true hallowed
      rw [List.filter_cons_of_pos hin]
      show _ = state.assumptions.map (remembered [e.2])
      rw [← replaceDefault_eq e.2 h]
      cases replaceDefault e.2 state.assumptions <;> rfl

/-- **The memory, on assumptions of different fields**: every default takes the first value for its field. -/
theorem applyMemory_assumptions {as : List Assumption} (h : (as.map (·.field)).Nodup)
    (memory : OrderedDict String MemoryEntry) (deniedColumns : Option (List String)) :
    (applyMemoryToAssumptions keys as memory deniedColumns).assumptions =
      as.map (remembered (usableEntries keys (deniedColumns.getD []) memory.entries)) := by
  unfold applyMemoryToAssumptions
  generalize memory.entries = entries
  generalize deniedColumns.getD [] = denied
  suffices hgen : ∀ state : AppliedMemory, (state.assumptions.map (·.field)).Nodup →
      (entries.foldl (AppliedMemory.step keys denied) state).assumptions =
        state.assumptions.map (remembered (usableEntries keys denied entries)) from hgen { assumptions := as } h
  induction entries with
  | nil => exact fun state _ => ((List.map_congr_left fun a _ => remembered_nil a).trans (List.map_id _)).symm
  | cons e rest ih =>
    intro state hfields
    have hstep := assumptions_step keys denied hfields e
    have hfields' : ((AppliedMemory.step keys denied state e).assumptions.map (·.field)).Nodup := by
      rw [hstep, List.map_map]
      exact (List.map_congr_left fun a _ => field_remembered _ a) ▸ hfields
    have hsplit : usableEntries keys denied (e :: rest) =
        usableEntries keys denied [e] ++ usableEntries keys denied rest := by
      unfold usableEntries
      rw [← List.map_append, ← List.filter_append]
      rfl
    rw [List.foldl_cons, ih _ hfields', hstep, List.map_map, hsplit]
    exact List.map_congr_left fun a _ => remembered_append _ _ a

/-- What is no default stays. -/
abbrev SettledStay : List Assumption → List Assumption → Prop :=
  List.Forall₂ fun a a' => a.source ≠ .default → a' = a

theorem SettledStay.refl (as : List Assumption) : SettledStay as as := List.forall₂_same.mpr fun _ _ _ => rfl

theorem SettledStay.trans {as bs cs : List Assumption} (h : SettledStay as bs) (h' : SettledStay bs cs) :
    SettledStay as cs := by
  induction h generalizing cs with
  | nil => exact h'
  | cons hhead _ ih =>
    cases h' with
    | cons hhead' htail' =>
      refine .cons (fun hsettled => ?_) (ih htail')
      cases hhead hsettled
      exact hhead' hsettled

theorem SettledStay.eq {as bs : List Assumption} (h : SettledStay as bs) (hall : ∀ a ∈ as, a.source ≠ .default) :
    bs = as := by
  induction h with
  | nil => rfl
  | cons hhead _ ih =>
    rw [hhead (hall _ List.mem_cons_self), ih fun a ha => hall a (List.mem_cons_of_mem _ ha)]

/-- Only a default is replaced. -/
theorem replaceDefault_stays (entry : MemoryEntry) (as : List Assumption) :
    SettledStay as ((replaceDefault entry as).getD as) := by
  induction as with
  | nil => exact .nil
  | cons a rest ih =>
    rw [replaceDefault]
    split
    · rename_i hhere
      exact .cons (fun hsettled => absurd hhere.2 hsettled) (SettledStay.refl rest)
    · cases hrest : replaceDefault entry rest with
      | none => exact SettledStay.refl (a :: rest)
      | some after =>
        rw [hrest] at ih
        exact .cons (fun _ => rfl) ih

variable (keys) in
/-- **The memory replaces defaults alone.** -/
theorem applyMemory_stays (as : List Assumption) (memory : OrderedDict String MemoryEntry)
    (deniedColumns : Option (List String)) :
    SettledStay as (applyMemoryToAssumptions keys as memory deniedColumns).assumptions := by
  unfold applyMemoryToAssumptions
  generalize memory.entries = entries
  suffices hgen : ∀ state : AppliedMemory, SettledStay as state.assumptions →
      SettledStay as (entries.foldl (AppliedMemory.step keys (deniedColumns.getD [])) state).assumptions from
    hgen { assumptions := as } (SettledStay.refl as)
  induction entries with
  | nil => exact fun state hstate => hstate
  | cons e rest ih =>
    intro state hstate
    refine ih _ ?_
    have hreplaced := hstate.trans (replaceDefault_stays e.2 state.assumptions)
    unfold AppliedMemory.step
    split
    · exact hstate
    · split
      · exact hstate
      · cases hafter : replaceDefault e.2 state.assumptions with
        | none => exact hstate
        | some after =>
          rw [hafter] at hreplaced
          exact hreplaced

/-- Assumptions of which none is a default stay as they are. -/
theorem applyMemory_settled {as : List Assumption} (h : ∀ a ∈ as, a.source ≠ .default)
    (memory : OrderedDict String MemoryEntry) (deniedColumns : Option (List String)) :
    (applyMemoryToAssumptions keys as memory deniedColumns).assumptions = as :=
  (applyMemory_stays keys as memory deniedColumns).eq h

end Memory

/-! ## What the assumptions write -/

section Dictionaries

variable {α κ ν : Type} [DecidableEq κ]

/-- **Assignments under other keys than `k` leave `k`**, and of those under `k` the last one stands. -/
theorem lookup_foldl_assign {f : DictEntry κ ν → Option ν} (k : κ) {l : List (DictEntry κ ν)} (h : l.NodupKeys)
    (d : OrderedDict κ ν) : (l.foldl (fun d e => (f e).elim d fun v => d.assign e.1 v) d).lookup k =
      ((l.dlookup k).bind fun v => f ⟨k, v⟩).or (d.lookup k) := by
  induction l generalizing d with
  | nil => rfl
  | cons e rest ih =>
    obtain ⟨hnew, hrest⟩ := List.nodupKeys_cons.mp h
    rw [List.foldl_cons, ih hrest]
    by_cases hk : k = e.1
    · obtain ⟨k', v⟩ := e
      subst hk
      rw [List.dlookup_eq_none.mpr hnew, List.dlookup_cons_eq, Option.bind_none, Option.none_or, Option.bind_some]
      cases f ⟨k, v⟩ with
      | none => rfl
      | some v' => exact OrderedDict.lookup_assign_self d k v'
    · rw [List.dlookup_cons_ne _ _ hk]
      cases f e with
      | none => rfl
      | some v => exact congrArg _ (OrderedDict.lookup_assign_of_ne d v hk)

/-- `update` reads the other dictionary first. -/
theorem lookup_update (d other : OrderedDict κ ν) (k : κ) :
    (d.update other).lookup k = (other.lookup k).or (d.lookup k) := by
  refine (lookup_foldl_assign (f := fun e => some e.2) k other.nodupKeys d).trans ?_
  exact congrArg (Option.or · (d.lookup k)) (Option.bind_fun_some (other.lookup k))

/-- A key's value is the last one under the key, there being one entry. -/
theorem getLast?_filterMap_key {f : ν → Option α} {l : List (DictEntry κ ν)} (h : l.NodupKeys) (k : κ) :
    (l.filterMap fun e => if e.1 = k then f e.2 else none).getLast? = (l.dlookup k).bind f := by
  induction l with
  | nil => rfl
  | cons e rest ih =>
    obtain ⟨hnew, hrest⟩ := List.nodupKeys_cons.mp h
    obtain ⟨k', v⟩ := e
    by_cases hk : k' = k
    · subst hk
      have hnone := ih hrest
      rw [List.dlookup_eq_none.mpr hnew, Option.bind_none, List.getLast?_eq_none_iff] at hnone
      rw [List.filterMap_cons, if_pos rfl, List.dlookup_cons_eq, hnone]
      cases hv : f v <;> simp [hv]
    · rw [List.filterMap_cons, if_neg hk, List.dlookup_cons_ne _ _ (Ne.symm hk)]
      exact ih hrest

/-- **A loop of which each turn may write a key**: the last turn to write it says the value. -/
theorem lookup_foldlM_writes {f : OrderedDict κ ν → α → Option (OrderedDict κ ν)} {w : α → Option ν} {k : κ}
    (hstep : ∀ d a d', f d a = some d' → d'.lookup k = (w a).or (d.lookup k)) {as : List α} {d d' : OrderedDict κ ν}
    (h : as.foldlM f d = some d') : d'.lookup k = ((as.filterMap w).getLast?).or (d.lookup k) := by
  induction as generalizing d with
  | nil =>
    cases h
    rfl
  | cons a rest ih =>
    rw [List.foldlM_cons] at h
    obtain ⟨d₁, hwrite, h⟩ := Option.bind_eq_some_iff.mp h
    rw [ih h, hstep d a d₁ hwrite, List.filterMap_cons]
    cases w a with
    | none => rfl
    | some v =>
      rw [Option.some_or, List.getLast?_cons]
      cases (rest.filterMap w).getLast? <;> rfl

end Dictionaries

section Writes

variable (S : AskSettings)

/-- The year a text of digits is. -/
def readYear (text : String) : Option PyValue :=
  if S.texts.isDigits (stripText text) then (S.texts.readDigits (stripText text)).map .int else none

/-- The scope an assumption writes. -/
def scopeWritten (a : Assumption) : Option PyValue :=
  if a.field = S.policy.fieldName then some (.str a.value) else none

/-- The year an assumption writes. -/
def periodWritten (a : Assumption) : Option PyValue := if a.field = "period" then readYear S a.value else none

variable {S} {as : List Assumption} {d d' : OrderedDict String PyValue} {a : Assumption}

/-- What one assumption writes. -/
theorem writeAssumption_cases (h : writeAssumption S d a = some d') :
    (a.field = S.policy.fieldName ∧ d' = d.assign S.policy.filterKey (.str a.value)) ∨
    (a.field ≠ S.policy.fieldName ∧ ∃ value, periodWritten S a = some value ∧ d' = d.assign yearKey value) ∨
    (a.field ≠ S.policy.fieldName ∧ periodWritten S a = none ∧ d' = d) := by
  unfold writeAssumption at h
  split at h
  · rename_i hscope
    cases h
    exact .inl ⟨hscope, rfl⟩
  · rename_i hscope
    unfold periodWritten readYear
    split at h
    · rename_i hyear
      obtain ⟨year, hread, rfl⟩ := Option.map_eq_some_iff.mp h
      refine .inr (.inl ⟨hscope, .int year, ?_, rfl⟩)
      rw [if_pos hyear.1, if_pos hyear.2, hread]
      rfl
    · rename_i hnothing
      cases h
      refine .inr (.inr ⟨hscope, ?_, rfl⟩)
      split
      · rename_i hfield
        exact if_neg fun hdigits => hnothing ⟨hfield, hdigits⟩
      · rfl

/-- Other keys are not written. -/
theorem lookup_writes_other (h : as.foldlM (writeAssumption S) d = some d') {key : String}
    (hscope : key ≠ S.policy.filterKey) (hyear : key ≠ yearKey) : d'.lookup key = d.lookup key := by
  have hstep : ∀ d a d', writeAssumption S d a = some d' →
      d'.lookup key = Option.or ((fun _ : Assumption => none) a) (d.lookup key) := by
    intro d a d' hwrite
    obtain ⟨-, rfl⟩ | ⟨-, value, -, rfl⟩ | ⟨-, -, rfl⟩ := writeAssumption_cases hwrite
    · exact OrderedDict.lookup_assign_of_ne d _ hscope
    · exact OrderedDict.lookup_assign_of_ne d _ hyear
    · rfl
  rw [lookup_foldlM_writes hstep h, List.filterMap_none]
  rfl

/-- **The scope's filter** is the last scope that was settled. -/
theorem lookup_writes_scope (hkeys : S.policy.filterKey ≠ yearKey) (h : as.foldlM (writeAssumption S) d = some d') :
    d'.lookup S.policy.filterKey =
      ((as.filterMap (scopeWritten S)).getLast?).or (d.lookup S.policy.filterKey) := by
  refine lookup_foldlM_writes (fun d a d' hwrite => ?_) h
  unfold scopeWritten
  obtain ⟨hfield, rfl⟩ | ⟨hfield, value, -, rfl⟩ | ⟨hfield, -, rfl⟩ := writeAssumption_cases hwrite
  · rw [if_pos hfield, OrderedDict.lookup_assign_self]
    rfl
  · rw [if_neg hfield, OrderedDict.lookup_assign_of_ne _ _ hkeys]
    rfl
  · rw [if_neg hfield]
    rfl

/-- **The year's filter** is the last period of digits that was settled. -/
theorem lookup_writes_year (hkeys : S.policy.filterKey ≠ yearKey) (hfields : S.policy.fieldName ≠ "period")
    (h : as.foldlM (writeAssumption S) d = some d') :
    d'.lookup yearKey = ((as.filterMap (periodWritten S)).getLast?).or (d.lookup yearKey) := by
  refine lookup_foldlM_writes (fun d a d' hwrite => ?_) h
  obtain ⟨hfield, rfl⟩ | ⟨hfield, value, hvalue, rfl⟩ | ⟨hfield, hnone, rfl⟩ := writeAssumption_cases hwrite
  · rw [periodWritten, if_neg fun hperiod => hfields (hfield.symm.trans hperiod),
      OrderedDict.lookup_assign_of_ne _ _ (Ne.symm hkeys)]
    rfl
  · rw [hvalue, OrderedDict.lookup_assign_self]
    rfl
  · rw [hnone]
    rfl

end Writes

end LocalSqlAgent
