import LocalSqlAgent.Retrieval.JoinPaths

/-! # The tables that join the selected ones

`retrieval.join_paths.expand_join_paths`: from one selected table a component is grown, path by path, and
the unselected tables on the paths are added.

* **`JoinSettings`**, **`Growth`**: the settings the loop reads, and its variables.
* **`attach`**, **`grow`**: one round, and the loop.
* **`Attached`**: what the rounds that added something are like, in order.
* **`expandJoinPaths_attached`**: the loop ends, and its additions are those of such rounds. -/

namespace LocalSqlAgent

/-- The settings of `expand_join_paths`. -/
structure JoinSettings where
  expansion : Bool
  maxHops : ℤ
  maxAddedTables : ℤ
  maxHubDegree : ℤ

/-- `JoinGraph.edge_is_inferred`: of several entries for one neighbour the last counts. -/
def JoinGraph.edgeIsInferred (graph : JoinGraph) (a b : String) : Bool :=
  ((OrderedDict.ofPairs (graph.neighbours a)).lookup b).getD false

/-- How many of a path's joins are inferred. -/
def JoinGraph.inferredOn (graph : JoinGraph) (path : List String) : ℕ :=
  (path.zip path.tail).countP fun edge => graph.edgeIsInferred edge.1 edge.2

/-- A path with the table it starts from. -/
structure Pick where
  table : String
  path : List String
  inferred : ℕ

/-- The variables of the loop. -/
structure Growth where
  component : List String
  pending : List String
  added : List String

section
variable (graph : JoinGraph) (settings : JoinSettings) (selected : List String) (fits : List String → Bool)

/-- The better of the best path so far and one more. -/
def betterPick (best : Option Pick) (pick : Pick) : Option Pick :=
  match best with
  | none => some pick
  | some b => if pathKey pick.path pick.inferred < pathKey b.path b.inferred then some pick else some b

/-- One pending table: its best path to the component. -/
def consider (component : List String) (best : Option Pick) (table : String) : Option (Option Pick) :=
  (graph.bestPath table component settings.maxHops settings.maxHubDegree).map fun path =>
    path.elim best fun path => betterPick best ⟨table, path, graph.inferredOn path⟩

/-- The unselected tables of a path, from the component's end. -/
def unselected (selected added path : List String) : List String :=
  path.tail.dropLast.reverse.filter fun t => decide (t ∉ selected) && decide (t ∉ added)

/-- Whether the new tables are too many, or too much for the prompt. -/
def tooMuch (added new : List String) : Bool :=
  decide (new ≠ []) &&
    (decide (settings.maxAddedTables < added.length + new.length) || !fits (selected ++ added ++ new))

/-- **One round**, with the best path: it is attached, or its table is dropped. -/
def attach (s : Growth) (pick : Pick) : Growth :=
  let new := unselected selected s.added pick.path
  let pending := s.pending.erase pick.table
  if tooMuch settings selected fits s.added new then { s with pending := pending }
  else
    { component := s.component ++ pick.path
      pending := pending.filter fun t => decide (t ∉ s.component ++ pick.path)
      added := s.added ++ new }

/-- **The loop**, `none` when the rounds do not suffice. -/
def grow : ℕ → Growth → Option (List String)
  | 0, s => if s.pending = [] then some s.added else none
  | rounds + 1, s =>
    if s.pending = [] then some s.added
    else (s.pending.foldlM (consider graph settings s.component) none).bind fun best =>
      best.elim (some s.added) fun pick => grow rounds (attach settings selected fits s pick)

/-- The selected tables that the graph knows, each once. -/
def knownTables : List String := selected.eraseDups.filter fun t => decide (t ∈ graph.adjacency)

/-- The table the component starts from: the first fact table, else the first table. -/
def startTable (factTables ordered : List String) : String :=
  (ordered.find? fun t => decide (t ∈ factTables)).getD (ordered.headD "")

/-- **`expand_join_paths`** on a join graph, with the configured fact tables. -/
def expandJoinPaths (factTables : List String) : Option (List String) :=
  if settings.expansion = false then some []
  else if (knownTables graph selected).length < 2 then some []
  else
    let start := startTable factTables (knownTables graph selected)
    grow graph settings selected fits (knownTables graph selected).length
      ⟨[start], (knownTables graph selected).filter fun t => decide (t ≠ start), []⟩

end

/-! ## The rounds that attached a path -/

/-- A round: the path that was attached, from a selected table, and what was added with it. -/
structure JoinRound where
  pick : Pick
  new : List String

/-- The component after some rounds. -/
def componentAfter (start : String) (rounds : List JoinRound) : List String :=
  start :: rounds.flatMap (·.pick.path)

/-- What some rounds added. -/
def addedBy (rounds : List JoinRound) : List String := rounds.flatMap (·.new)

/-- **What a round is like** after others: its path goes from a selected table to the component, the new
tables are the unselected ones on it, and they were few enough and fitted. -/
structure JoinRound.Fair (graph : JoinGraph) (settings : JoinSettings) (selected : List String)
    (fits : List String → Bool) (start : String) (before : List JoinRound) (r : JoinRound) : Prop where
  from_selected : r.pick.table ∈ selected
  path : ∃ inferred, IsJoinPath graph r.pick.table (componentAfter start before) settings.maxHops
    settings.maxHubDegree r.pick.path inferred
  new : r.new = unselected selected (addedBy before) r.pick.path
  few : r.new ≠ [] → ((addedBy before).length + r.new.length : ℤ) ≤ settings.maxAddedTables
  fits : r.new ≠ [] → fits (selected ++ addedBy before ++ r.new) = true

/-- **The rounds in order**: each is fair after those before it. -/
def Attached (graph : JoinGraph) (settings : JoinSettings) (selected : List String)
    (fits : List String → Bool) (start : String) (rounds : List JoinRound) : Prop :=
  ∀ before r after, rounds = before ++ r :: after → r.Fair graph settings selected fits start before

section
variable {graph : JoinGraph} {settings : JoinSettings} {selected : List String}
  {fits : List String → Bool} {start : String} {rounds : List JoinRound} {s : Growth} {pick : Pick}

theorem Attached.snoc (h : Attached graph settings selected fits start rounds) {r : JoinRound}
    (fair : r.Fair graph settings selected fits start rounds) :
    Attached graph settings selected fits start (rounds ++ [r]) := by
  intro before r' after eq
  obtain rfl | ⟨after, last, rfl⟩ := after.eq_nil_or_concat
  · obtain ⟨rfl, last⟩ := List.append_inj' eq rfl
    obtain rfl := List.singleton_inj.mp last
    exact fair
  · rw [List.concat_eq_append, ← List.cons_append, ← List.append_assoc] at eq
    obtain ⟨rfl, -⟩ := List.append_inj' eq rfl
    exact h before r' after rfl

theorem Attached.init {r : JoinRound} (h : Attached graph settings selected fits start (rounds ++ [r])) :
    Attached graph settings selected fits start rounds := fun before r' after eq =>
  h before r' (after ++ [r]) (by rw [eq]; simp)

theorem Attached.last {r : JoinRound} (h : Attached graph settings selected fits start (rounds ++ [r])) :
    r.Fair graph settings selected fits start rounds := h rounds r [] rfl

/-! ## The loop -/

variable (graph settings) in
/-- **The best of the pending tables' paths** is one of them. -/
theorem foldlM_consider (component pending : List String) (best : Option Pick) :
    ∃ result, pending.foldlM (consider graph settings component) best = some result ∧
      ∀ pick, result = some pick → best = some pick ∨ (pick.table ∈ pending ∧
        ∃ inferred, IsJoinPath graph pick.table component settings.maxHops settings.maxHubDegree
          pick.path inferred) := by
  induction pending generalizing best with
  | nil => exact ⟨best, rfl, fun pick h => .inl h⟩
  | cons table pending ih =>
    obtain ⟨path, run, meant⟩ := exists_bestPath graph table component settings.maxHops
      settings.maxHubDegree
    obtain ⟨next, step, new⟩ : ∃ next, consider graph settings component best table = some next ∧
        ∀ pick, next = some pick → best = some pick ∨ (pick.table = table ∧ path = some pick.path) := by
      rw [consider, run]
      cases path with
      | none => exact ⟨best, rfl, fun pick h => .inl h⟩
      | some path =>
        refine ⟨_, rfl, fun pick h => ?_⟩
        have h : betterPick best ⟨table, path, graph.inferredOn path⟩ = some pick := h
        cases best with
        | none =>
          obtain rfl := Option.some.inj h
          exact .inr ⟨rfl, rfl⟩
        | some b =>
          rw [betterPick] at h
          split_ifs at h
          · obtain rfl := Option.some.inj h
            exact .inr ⟨rfl, rfl⟩
          · exact .inl h
    obtain ⟨result, rest, found⟩ := ih next
    refine ⟨result, by rw [List.foldlM_cons, step]; exact rest, fun pick h => ?_⟩
    obtain h | ⟨mem, path⟩ := found pick h
    · obtain old | ⟨rfl, eq⟩ := new pick h
      · exact .inl old
      · exact .inr ⟨List.mem_cons_self, meant pick.path eq⟩
    · exact .inr ⟨List.mem_cons_of_mem _ mem, path⟩

/-- **The invariant of the loop**: its variables are those after some fair rounds. -/
structure GrowthInvariant (graph : JoinGraph) (settings : JoinSettings) (selected : List String)
    (fits : List String → Bool) (start : String) (rounds : List JoinRound) (s : Growth) : Prop where
  attached : Attached graph settings selected fits start rounds
  component : s.component = componentAfter start rounds
  added : s.added = addedBy rounds
  pending : ∀ t ∈ s.pending, t ∈ selected

/-- **One round keeps the invariant**, with one fair round more when the path is attached. -/
theorem GrowthInvariant.attach (inv : GrowthInvariant graph settings selected fits start rounds s)
    (mem : pick.table ∈ s.pending)
    (path : ∃ inferred, IsJoinPath graph pick.table s.component settings.maxHops settings.maxHubDegree
      pick.path inferred) :
    ∃ rounds', GrowthInvariant graph settings selected fits start rounds'
      (attach settings selected fits s pick) := by
  have pending : ∀ t ∈ s.pending.erase pick.table, t ∈ selected := fun t h =>
    inv.pending t (List.mem_of_mem_erase h)
  by_cases much : tooMuch settings selected fits s.added (unselected selected s.added pick.path) = true
  · have eq : LocalSqlAgent.attach settings selected fits s pick =
        { s with pending := s.pending.erase pick.table } := if_pos much
    exact ⟨rounds, by rw [eq]; exact ⟨inv.attached, inv.component, inv.added, pending⟩⟩
  · have eq : LocalSqlAgent.attach settings selected fits s pick =
        { component := s.component ++ pick.path
          pending := (s.pending.erase pick.table).filter fun t => decide (t ∉ s.component ++ pick.path)
          added := s.added ++ unselected selected s.added pick.path } := if_neg much
    have room : unselected selected s.added pick.path ≠ [] →
        (s.added.length + (unselected selected s.added pick.path).length : ℤ) ≤ settings.maxAddedTables ∧
          fits (selected ++ s.added ++ unselected selected s.added pick.path) = true := by
      intro new
      simpa [tooMuch, new] using much
    refine ⟨rounds ++ [⟨pick, unselected selected s.added pick.path⟩], ?_⟩
    rw [eq]
    refine ⟨inv.attached.snoc ⟨inv.pending _ mem, inv.component ▸ path, inv.added ▸ rfl, ?_, ?_⟩, ?_, ?_, ?_⟩
    · exact fun new => inv.added ▸ (room new).1
    · exact fun new => inv.added ▸ (room new).2
    · simp [inv.component, componentAfter]
    · simp [inv.added, addedBy]
    · exact fun t h => pending t (List.mem_of_mem_filter h)

/-- A round leaves fewer tables pending. -/
theorem length_pending_attach (settings : JoinSettings) (selected : List String)
    (fits : List String → Bool) (mem : pick.table ∈ s.pending) :
    (attach settings selected fits s pick).pending.length < s.pending.length := by
  have shorter : (s.pending.erase pick.table).length < s.pending.length := by
    rw [List.length_erase_of_mem mem]
    exact Nat.sub_lt (List.length_pos_of_mem mem) Nat.one_pos
  rw [attach]
  split_ifs
  · exact shorter
  · exact (List.length_filter_le _ _).trans_lt shorter

/-- **The loop ends**, and what it added was added by fair rounds. -/
theorem grow_attached {bound : ℕ} (inv : GrowthInvariant graph settings selected fits start rounds s)
    (enough : s.pending.length ≤ bound) :
    ∃ rounds', grow graph settings selected fits bound s = some (addedBy rounds') ∧
      Attached graph settings selected fits start rounds' := by
  induction bound generalizing s rounds with
  | zero =>
    have none : s.pending = [] := List.length_eq_zero_iff.mp (Nat.le_zero.mp enough)
    exact ⟨rounds, inv.added ▸ if_pos none, inv.attached⟩
  | succ bound ih =>
    by_cases none : s.pending = []
    · exact ⟨rounds, inv.added ▸ if_pos none, inv.attached⟩
    · obtain ⟨best, run, found⟩ := foldlM_consider graph settings s.component s.pending
        Option.none
      have step : grow graph settings selected fits (bound + 1) s =
          (s.pending.foldlM (consider graph settings s.component) Option.none).bind fun best =>
            best.elim (some s.added) fun pick =>
              grow graph settings selected fits bound (attach settings selected fits s pick) := if_neg none
      rw [step, run]
      cases best with
      | none => exact ⟨rounds, congrArg some inv.added, inv.attached⟩
      | some pick =>
        obtain ⟨mem, path⟩ := (found pick rfl).resolve_left (by simp)
        obtain ⟨rounds', inv'⟩ := inv.attach mem path
        have fewer := length_pending_attach settings selected fits mem
        exact ih inv' (by omega)

theorem mem_selected_of_known {t : String} (h : t ∈ knownTables graph selected) : t ∈ selected :=
  List.mem_eraseDups.mp (List.mem_of_mem_filter h)

theorem startTable_mem {factTables ordered : List String} (some : ordered ≠ []) :
    startTable factTables ordered ∈ ordered := by
  rw [startTable]
  cases found : ordered.find? fun t => decide (t ∈ factTables) with
  | some t => exact List.mem_of_find?_eq_some found
  | none =>
    obtain ⟨first, others, rfl⟩ := List.exists_cons_of_ne_nil some
    exact List.mem_cons_self

/-- **The additions are those of fair rounds**, from a selected table on. -/
theorem expandJoinPaths_attached (graph : JoinGraph) (settings : JoinSettings) (selected : List String)
    (fits : List String → Bool) (factTables : List String) :
    ∃ start rounds, expandJoinPaths graph settings selected fits factTables = some (addedBy rounds) ∧
      Attached graph settings selected fits start rounds ∧ (rounds ≠ [] → start ∈ selected) := by
  have nothing : Attached graph settings selected fits "" [] := fun before r after eq => by simp at eq
  rw [expandJoinPaths]
  split_ifs with off few
  · exact ⟨"", [], rfl, nothing, fun h => absurd rfl h⟩
  · exact ⟨"", [], rfl, nothing, fun h => absurd rfl h⟩
  · have known : knownTables graph selected ≠ [] := fun h => few (by simp [h])
    have inv : GrowthInvariant graph settings selected fits
        (startTable factTables (knownTables graph selected)) []
        ⟨[startTable factTables (knownTables graph selected)], (knownTables graph selected).filter fun t =>
          decide (t ≠ startTable factTables (knownTables graph selected)), []⟩ :=
      { attached := fun before r after eq => by simp at eq
        component := rfl
        added := rfl
        pending := fun t h => mem_selected_of_known (List.mem_of_mem_filter h) }
    obtain ⟨rounds, run, attached⟩ := grow_attached inv (List.length_filter_le _ _)
    exact ⟨_, rounds, run, attached, fun _ => mem_selected_of_known (startTable_mem known)⟩

/-! ## What the additions are like -/

theorem mem_unselected {added path : List String} {t : String} :
    t ∈ unselected selected added path ↔ t ∈ path.tail.dropLast ∧ t ∉ selected ∧ t ∉ added := by
  rw [unselected, List.mem_filter, List.mem_reverse, Bool.and_eq_true, decide_eq_true_eq, decide_eq_true_eq]

theorem mem_addedBy {t : String} : t ∈ addedBy rounds ↔ ∃ r ∈ rounds, t ∈ r.new := List.mem_flatMap

theorem addedBy_snoc {r : JoinRound} : addedBy (rounds ++ [r]) = addedBy rounds ++ r.new := by
  simp [addedBy]

/-- **What fair rounds add**: each table once, none selected and none a hub, and not too many. -/
theorem Attached.added (h : Attached graph settings selected fits start rounds) :
    (addedBy rounds).Nodup ∧
      (∀ t ∈ addedBy rounds, t ∉ selected ∧ (graph.degree t : ℤ) ≤ settings.maxHubDegree) ∧
      ((addedBy rounds).length : ℤ) ≤ max 0 settings.maxAddedTables := by
  induction rounds using List.reverseRecOn with
  | nil => exact ⟨List.nodup_nil, fun t mem => absurd mem List.not_mem_nil, le_max_left _ _⟩
  | append_singleton rounds r ih =>
    obtain ⟨nodup, plain, few⟩ := ih h.init
    have fair := h.last
    obtain ⟨inferred, path⟩ := fair.path
    have inner : (r.pick.path.tail.dropLast).Nodup :=
      path.trail.nodup.sublist ((List.dropLast_sublist _).trans (List.tail_sublist _))
    have new_nodup : r.new.Nodup := by
      rw [fair.new, unselected]
      exact (List.nodup_reverse.mpr inner).filter _
    have new_mem : ∀ t ∈ r.new, t ∈ r.pick.path.tail.dropLast ∧ t ∉ selected ∧ t ∉ addedBy rounds :=
      fun t mem => mem_unselected.mp (fair.new ▸ mem)
    rw [addedBy_snoc]
    refine ⟨List.nodup_append.mpr ⟨nodup, new_nodup, ?_⟩, fun t mem => ?_, ?_⟩
    · rintro t old other mem rfl
      exact (new_mem t mem).2.2 old
    · obtain mem | mem := List.mem_append.mp mem
      · exact plain t mem
      · exact ⟨(new_mem t mem).2.1, path.no_hub t (new_mem t mem).1⟩
    · by_cases none : r.new = []
      · rwa [none, List.append_nil]
      · have few := fair.few none
        rw [List.length_append]
        omega

end

/-- **What the expansion adds.** It ends. Its additions are without duplicates, none selected and none a
hub, and as many as the setting allows at most. They come in rounds: each round's tables lie on a path
of the allowed length, inside one data source, from a selected table to the component of the rounds
before, and when a round adds something the budget holds with it. -/
theorem expandJoinPaths_grows (graph : JoinGraph) (settings : JoinSettings) (selected : List String)
    (fits : List String → Bool) (factTables : List String) :
    ∃ added, expandJoinPaths graph settings selected fits factTables = some added ∧
      added.Nodup ∧ (∀ t ∈ added, t ∉ selected ∧ (graph.degree t : ℤ) ≤ settings.maxHubDegree) ∧
      (added.length : ℤ) ≤ max 0 settings.maxAddedTables ∧
      ∃ start rounds, added = addedBy rounds ∧ (rounds ≠ [] → start ∈ selected) ∧
        ∀ before r after, rounds = before ++ r :: after →
          r.pick.table ∈ selected ∧
          (∃ inferred, IsJoinPath graph r.pick.table (componentAfter start before) settings.maxHops
            settings.maxHubDegree r.pick.path inferred) ∧
          (∀ t ∈ r.new, t ∈ r.pick.path.tail.dropLast) ∧
          (r.new ≠ [] → fits (selected ++ addedBy before ++ r.new) = true) := by
  obtain ⟨start, rounds, run, attached, chosen⟩ :=
    expandJoinPaths_attached graph settings selected fits factTables
  obtain ⟨nodup, plain, few⟩ := attached.added
  refine ⟨_, run, nodup, plain, few, start, rounds, rfl, chosen, fun before r after eq => ?_⟩
  have fair := attached before r after eq
  exact ⟨fair.from_selected, fair.path, fun t mem => (mem_unselected.mp (fair.new ▸ mem)).1, fair.fits⟩

/-- Three tables in a row, of which the graph lists no data source for the first. -/
def unlistedEnd : JoinGraph where
  adjacency := OrderedDict.ofPairs
    [("A", [("B", false)]), ("B", [("A", false), ("C", false)]), ("C", [("B", false)])]
  sources := OrderedDict.ofPairs [("B", ["sales"]), ("C", ["stock"])]

/-- **A limit below zero, and a table without data sources.** No additions are still more than the limit;
and from the table that the graph lists no data source for a path runs through two of them. -/
theorem negative_limit_and_unlisted_end :
    (∃ added, expandJoinPaths unlistedEnd ⟨false, 2, -1, 10⟩ ["C", "A"] (fun _ => true) [] = some added ∧
      ¬ (added.length : ℤ) ≤ -1) ∧
    expandJoinPaths unlistedEnd ⟨true, 2, 4, 10⟩ ["C", "A"] (fun _ => true) [] = some ["B"] ∧
    ¬ ∃ source ∈ unlistedEnd.sourcesOf "B", source ∈ unlistedEnd.sourcesOf "C" :=
  ⟨⟨[], rfl, by decide⟩, by decide, by decide⟩

end LocalSqlAgent
