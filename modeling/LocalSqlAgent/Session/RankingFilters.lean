import LocalSqlAgent.Session.FilterRuns

/-! # The filters of a ranking question

A ranking question that starts over is answered under a scope, a measure and a period. Each is an assumption
with a source: the user's override before the question's own words, these before what is remembered, and
the default last.

* **`RankedBy`**: the filters of such a turn, by the sources of each.
* **`ranking_filters`**: the turn has them. -/

namespace LocalSqlAgent

variable {S : AskSettings} {r : AskRecord} {input : AskInput} {f : TurnFilters} {merged : OrderedDict String PyValue}

/-- What is remembered of a field, or its default. -/
def rememberedText (entries : List MemoryEntry) (field default : String) : String :=
  ((entries.find? fun e => e.field = field).map (·.value)).getD default

/-- The entries a request may apply. -/
def AskInput.usable (S : AskSettings) (input : AskInput) : List MemoryEntry :=
  usableEntries S.memoryKeys (input.deniedColumns.getD []) (effectiveMemory S input).entries

/-- **The filters of a ranking question.** -/
structure RankedBy (S : AskSettings) (input : AskInput) (filters : OrderedDict String PyValue) : Prop where
  /-- The scope: an override, the question's, what is remembered, the default. -/
  scope : filters.lookup S.policy.filterKey = some (.str ((input.overrides.lookup S.policy.fieldName).getD
    (((input.contextFilters.lookup S.policy.filterKey).map S.texts.str).getD
      (rememberedText (input.usable S) S.policy.fieldName S.policy.label))))
  /-- The year: the question's, or an override, what is remembered or the default, if it is of digits. -/
  year : filters.lookup yearKey = (input.contextFilters.lookup yearKey).or (readYear S
    ((input.overrides.lookup "period").getD
      (rememberedText (input.usable S) "period" (defaultPeriodLabel input.today))))
  /-- Any other filter: the question's. -/
  other : ∀ key, key ≠ S.policy.filterKey → key ≠ yearKey → filters.lookup key = input.contextFilters.lookup key

/-! ## An assumption settled -/

/-- An assumption after the memory and the overrides. -/
def settle (entries : List MemoryEntry) (overrides : OrderedDict String String) (a : Assumption) : Assumption :=
  overridden overrides (remembered entries a)

section Settle

variable {entries : List MemoryEntry} {overrides : OrderedDict String String} {a : Assumption}

theorem field_settle (entries : List MemoryEntry) (overrides : OrderedDict String String) (a : Assumption) :
    (settle entries overrides a).field = a.field :=
  (field_overridden _ _).trans (field_remembered _ _)

theorem editable_remembered : (remembered entries a).editable = a.editable := by
  unfold remembered
  split
  · split <;> rfl
  · rfl

theorem value_settle_default (heditable : a.editable = true) (h : a.source = .default) :
    (settle entries overrides a).value =
      (overrides.lookup a.field).getD (rememberedText entries a.field a.value) := by
  unfold settle
  rw [value_overridden (editable_remembered.trans heditable), field_remembered]
  unfold remembered rememberedText
  rw [if_pos h]
  cases entries.find? fun e => e.field = a.field <;> rfl

theorem value_settle (heditable : a.editable = true) (h : a.source ≠ .default) :
    (settle entries overrides a).value = (overrides.lookup a.field).getD a.value := by
  unfold settle
  rw [value_overridden (editable_remembered.trans heditable), field_remembered, remembered, if_neg h]

end Settle

/-! ## A ranking question -/

/-- The scope a ranking question is settled with. -/
theorem scopeWritten_settle (entries : List MemoryEntry) (overrides : OrderedDict String String) :
    scopeWritten S (settle entries overrides (scopeAssumption S.policy S.texts merged)) =
      some (.str ((overrides.lookup S.policy.fieldName).getD
        (((merged.lookup S.policy.filterKey).map S.texts.str).getD
          (rememberedText entries S.policy.fieldName S.policy.label)))) := by
  have hfield : (scopeAssumption S.policy S.texts merged).field = S.policy.fieldName := by
    unfold scopeAssumption
    split <;> rfl
  rw [scopeWritten, if_pos ((field_settle _ _ _).trans hfield)]
  unfold scopeAssumption
  split
  · rename_i v hv
    rw [value_settle rfl AssumptionSource.noConfusion, hv]
    rfl
  · rename_i hv
    rw [value_settle_default rfl rfl, hv]
    rfl

/-- The period one is settled with. -/
theorem periodWritten_settle (entries : List MemoryEntry) (overrides : OrderedDict String String) (label : String) :
    periodWritten S (settle entries overrides { field := "period", value := label, source := .default }) =
      readYear S ((overrides.lookup "period").getD (rememberedText entries "period" label)) := by
  rw [periodWritten, if_pos (field_settle _ _ _), value_settle_default rfl rfl]

/-- The assumptions of a ranking question. -/
def rankingAssumptions (S : AskSettings) (input : AskInput) (merged : OrderedDict String PyValue) : List Assumption :=
  scopeAssumption S.policy S.texts merged :: measureAssumption input.question :: periodAssumptions input.today merged

theorem field_scopeAssumption : (scopeAssumption S.policy S.texts merged).field = S.policy.fieldName := by
  unfold scopeAssumption
  split <;> rfl

/-- They are about different fields, so that each is settled by itself. -/
theorem settled_rankingAssumptions (hpolicy : PolicyApart S.policy) (hmeasure : S.policy.fieldName ≠ "measure") :
    (settledAssumptions S input (rankingAssumptions S input merged)).1 =
      (rankingAssumptions S input merged).map (settle (input.usable S) input.overrides) := by
  have hnodup : ((rankingAssumptions S input merged).map (·.field)).Nodup := by
    have hperiods : ∀ field ∈ (periodAssumptions input.today merged).map (·.field), field = "period" := by
      unfold periodAssumptions
      split
      · exact fun _ hmem => absurd hmem List.not_mem_nil
      · exact fun _ hmem => List.mem_singleton.mp hmem
    have hone : ((periodAssumptions input.today merged).map (·.field)).Nodup := by
      unfold periodAssumptions
      split
      · exact List.nodup_nil
      · exact List.nodup_singleton _
    rw [rankingAssumptions, List.map_cons, List.map_cons, field_scopeAssumption]
    refine List.nodup_cons.mpr ⟨fun hmem => ?_, List.nodup_cons.mpr ⟨fun hmem => ?_, hone⟩⟩
    · obtain heq | hmem := List.mem_cons.mp hmem
      · exact hmeasure heq
      · exact hpolicy.field (hperiods _ hmem)
    · exact absurd (hperiods "measure" hmem) (by decide)
  unfold settledAssumptions
  dsimp only
  rw [applyMemory_assumptions hnodup, applyOverrides, List.map_map]
  rfl

/-- What a question that starts over is generated from: its own filters, and no record. -/
theorem resolveTurn_fresh (hstarts : ¬ IsRefinement input.question) : resolveTurn S r input =
    generativeFilters S { kind := .fresh, refinesTurnId := none, composition := .none } input := by
  have hsettled : settledDecision S (r.basis input.question) input.overrides =
      { kind := .fresh, refinesTurnId := none, composition := .none } := by
    rw [basis_startsOver hstarts]
    exact settledDecision_eq S _ _ fun hcte => BasisComposition.noConfusion hcte
  rw [resolveTurn_of hsettled, if_neg fun hboth => BasisKind.noConfusion hboth.1]

/-- The assumptions then write into the question's own filters. -/
theorem resolveTurn_startsOver (hstarts : ¬ IsRefinement input.question)
    (hranking : isRankingQuestion input.question = true) (h : resolveTurn S r input = some f) :
    ∃ merged, (∀ key, merged.lookup key = input.contextFilters.lookup key) ∧
      (settledAssumptions S input (rankingAssumptions S input merged)).1.foldlM (writeAssumption S) merged =
        some f.filters := by
  rw [resolveTurn_fresh hstarts] at h
  unfold generativeFilters at h
  obtain ⟨merged, hmerged, h⟩ := Option.bind_eq_some_iff.mp h
  obtain ⟨filters, hwritten, h⟩ := Option.bind_eq_some_iff.mp h
  cases h
  refine ⟨merged, fun key => ?_, ?_⟩
  · rw [lookup_merged hmerged (.inr rfl)]
    exact Option.or_none
  · rw [if_neg BasisKind.noConfusion, assumptionsForFresh, if_pos hranking] at hwritten
    exact hwritten

end LocalSqlAgent
