import LocalSqlAgent.Api.QueryCacheLaw
import LocalSqlAgent.Llm.FetchedRows
import LocalSqlAgent.Security.ScopeKey

/-! # Cached rows stay within a policy

`run_query` of `api.runner` where it asks for rows: the query cache is asked for the question, else the agent's
loop runs, asking the statement cache before it executes, and the answer is stored under both keys. Requests run
side by side; what they share is the query cache, so a run is the order in which they use it.

* **`queryStep`**: one use of the cache, or the end of one agent's loop.
* **`QueryStep.Honest`**: the loop ran under its caller's denied columns, and what its statement cache answered
  was in the query cache at some time before.
* **`answers_within_policy`**: whoever asks, the rows of an answer were returned by the database for a statement
  the guard had approved under the same denied columns, in the same mode and under the same prefix version. -/

namespace LocalSqlAgent

namespace RunQuery

universe u

/-! ## Requests and answers -/

/-- `mode`, where rows are asked for. -/
inductive QueryMode where
  | result
  | full
  deriving DecidableEq, Repr

/-- Its text. -/
def QueryMode.text : QueryMode → String
  | .result => "result"
  | .full => "full"

theorem QueryMode.text_inj {m m' : QueryMode} (h : m.text = m'.text) : m = m' := by
  cases m <;> cases m' <;> first | rfl | exact absurd h (by decide)

/-- The arguments of `run_query`. -/
structure QueryRequest where
  question : String
  mode : QueryMode
  interpret : Bool
  principal : Option Principal
  /-- `cache_prefix_version_for(system_prompt)` when it was made. -/
  prefixVersion : String

/-- No entry of the memory. -/
def noMemory : MemoryUsed := ⟨[], List.nodup_nil⟩

namespace QueryRequest

/-- `denied_columns`. -/
def denied (r : QueryRequest) : Option (List String) := r.principal.map (·.deniedColumns)

/-- `cache_scope`. -/
def cacheScope (digest : String → String) (r : QueryRequest) : String :=
  match r.principal with
  | some p => scopeKey digest p noMemory
  | none => ""

/-- `use_cache`. -/
def useCache (r : QueryRequest) : Bool := !r.interpret

/-- The same visibility: both without a principal, or equal sets of denied entries. -/
def SameDenied (r r' : QueryRequest) : Prop := r.denied.map List.toFinset = r'.denied.map List.toFinset

end QueryRequest

/-- `QueryResponse`, without the interpretation and what describes the model. -/
structure QueryResponse (ρ : Type u) where
  question : String
  sql : Option String
  result : Option ρ
  correctionAttempts : Option ℕ

/-- Data frames and lists of records. -/
structure Frames (ρ : Type u) where
  /-- `df.to_dict(orient="records")`. -/
  toRecords : DataFrame → ρ
  /-- `pd.DataFrame(records)`. -/
  ofRecords : ρ → DataFrame

variable {ρ : Type u}

/-- Records a frame was turned into, and back and again any number of times. -/
inductive Frames.Recorded (F : Frames ρ) (data : DataFrame) : ρ → Prop
  | first : F.Recorded data (F.toRecords data)
  | again {rows : ρ} (h : F.Recorded data rows) : F.Recorded data (F.toRecords (F.ofRecords rows))

/-- One request's loop. -/
structure AgentRun where
  world : AgentWorld
  settings : LoopSettings
  routing : Option SourceRouting

/-- How it ended, and its log. -/
def AgentRun.outcome (run : AgentRun) : Except PyError SqlGenerationResult × List LoopEvent :=
  (attemptLoop run.world run.settings run.routing).exec []

/-- The response built of a result. -/
def QueryRequest.response (F : Frames ρ) (r : QueryRequest) (result : SqlGenerationResult) : QueryResponse ρ where
  question := r.question
  sql := if r.mode = .full then some result.sql else none
  result := some (F.toRecords result.data)
  correctionAttempts := some result.attempt

/-- `_rows_from_sql_cache`, from what the cache answered. -/
def rowsFromSqlCache (F : Frames ρ) (cached : Option (QueryResponse ρ)) : Option DataFrame :=
  cached.bind fun response => response.result.map F.ofRecords

/-! ## The process -/

/-- The query cache, what it was before, and what was run and answered. -/
structure State (ρ : Type u) where
  cache : QueryCache (QueryResponse ρ)
  /-- Every state the cache has been in. -/
  past : List (QueryCache (QueryResponse ρ))
  /-- The loops that returned. -/
  runs : List (QueryRequest × AgentRun)
  /-- What `run_query` returned. -/
  answers : List (QueryRequest × QueryResponse ρ)

/-- Before the first request. -/
def State.init (ttlSeconds maxSize : ℤ) : State ρ := ⟨.new ttlSeconds maxSize, [], [], []⟩

/-- The cache goes on. -/
def State.move (s : State ρ) (c : QueryCache (QueryResponse ρ)) : State ρ :=
  { s with cache := c, past := s.cache :: s.past }

/-- What happens next. -/
inductive QueryStep where
  /-- A request asks the cache for its question. -/
  | look (request : QueryRequest) (now : ℚ)
  /-- The loop of a request asks the cache for a statement. -/
  | lookSql (request : QueryRequest) (sql : String) (now : ℚ)
  /-- The loop of a request ends. -/
  | finish (request : QueryRequest) (run : AgentRun) (now : ℚ)
  /-- `query_cache.clear`. -/
  | clear
  /-- `query_cache.reconfigure`. -/
  | reconfigure (ttlSeconds maxSize : ℤ)

section Step

variable (digest : String → String) (f : CacheFolding) (F : Frames ρ)

/-- The end of a loop that returned: its response is stored and returned, unless storing it raises. -/
def finish (s : State ρ) (r : QueryRequest) (run : AgentRun) (now : ℚ) (result : SqlGenerationResult) : State ρ :=
  let response := r.response F result
  let s' := { s with runs := (r, run) :: s.runs }
  if r.useCache then
    let o := s.cache.set f now r.question r.mode.text response r.prefixVersion (some result.sql)
      (r.cacheScope digest)
    if o.returned then { s'.move o.after with answers := (r, response) :: s.answers } else s'.move o.after
  else { s' with answers := (r, response) :: s.answers }

/-- **One step.** -/
def queryStep (s : State ρ) : QueryStep → Option (State ρ)
  | .look r now =>
    if r.useCache then
      let (hit, c) := s.cache.get f now r.question r.mode.text r.prefixVersion (r.cacheScope digest)
      some { s.move c with answers := (hit.map fun response => (r, response)).toList ++ s.answers }
    else none
  | .lookSql r sql now =>
    if r.useCache then
      some (s.move (s.cache.getBySql now sql r.mode.text r.prefixVersion (r.cacheScope digest)).2)
    else none
  | .finish r run now =>
    match run.outcome.1 with
    | .ok result => some (finish digest f F s r run now result)
    | .error _ => some s
  | .clear => some (s.move s.cache.clear)
  | .reconfigure ttlSeconds maxSize => some (s.move (s.cache.reconfigure ttlSeconds maxSize))

/-- The requests a step is about. -/
def QueryStep.request? : QueryStep → Option QueryRequest
  | .look r _ | .lookSql r _ _ | .finish r _ _ => some r
  | .clear | .reconfigure _ _ => none

/-- **A loop of the program**: it ran under its caller's denied columns, and a hit of its statement cache is
what the query cache had for the statement at some time. -/
def QueryStep.Honest (s : State ρ) : QueryStep → Prop
  | .finish r run _ => run.settings.deniedColumns = r.denied ∧
      ∀ log sql data, run.world.sqlCacheLookup log sql = .ok (some data) → r.useCache = true ∧
        ∃ c ∈ s.cache :: s.past, ∃ now, rowsFromSqlCache F
          (c.getBySql now sql r.mode.text r.prefixVersion (r.cacheScope digest)).1 = some data
  | _ => True

end Step

/-! ## What the cache holds -/

section Holds

variable {ν : Type u} {P : CacheLevel → CacheKey → ν → Prop} {c : QueryCache ν} {level : CacheLevel}
  {key : CacheKey} {now : ℚ}

/-- Everything stored meets `P`. -/
def Holds (P : CacheLevel → CacheKey → ν → Prop) (c : QueryCache ν) : Prop :=
  ∀ level key entry, (c.storeAt level).lookup key = some entry → P level key entry.value

theorem Holds.mono {P' : CacheLevel → CacheKey → ν → Prop} (h : Holds P c)
    (hP : ∀ level key v, P level key v → P' level key v) : Holds P' c :=
  fun level key entry hentry => hP level key _ (h level key entry hentry)

theorem holds_of_empty (h : ∀ level, c.storeAt level = ∅) : Holds P c := by
  intro level key entry hentry
  rw [h level] at hentry
  cases hentry

/-- Replacing one store keeps what the new one keeps. -/
theorem Holds.withStore (h : Holds P c) {d : OrderedDict CacheKey (Expiring ν ℚ)}
    (hd : ∀ key entry, d.lookup key = some entry → P level key entry.value) : Holds P (c.withStore level d) := by
  intro level' key entry hentry
  by_cases hlevel : level' = level
  · subst hlevel
    rw [QueryCache.storeAt_withStore_self] at hentry
    exact hd key entry hentry
  · rw [QueryCache.storeAt_withStore_of_ne c hlevel] at hentry
    exact h level' key entry hentry

/-- Counters aside, caches with the same stores hold the same. -/
theorem Holds.congr {c' : QueryCache ν} (h : Holds P c) (hstores : ∀ level, c'.storeAt level = c.storeAt level) :
    Holds P c' := by
  intro level key entry hentry
  rw [hstores level] at hentry
  exact h level key entry hentry

/-- **A lookup** answers what is stored and stores nothing new. -/
theorem Holds.lookupAt (h : Holds P c) (level : CacheLevel) (now : ℚ) (key : CacheKey) :
    (∀ v ∈ (c.lookupAt level now key).1, P level key v) ∧ Holds P (c.lookupAt level now key).2 := by
  unfold QueryCache.lookupAt
  split
  · have hcounted : Holds P (c.counted level now key) :=
      h.congr fun level' => QueryCache.counted_storeAt c level level' now key
    unfold QueryCache.getFrom readEntry
    cases hlookup : (c.storeAt level).lookup key with
    | none =>
      refine ⟨fun _ hv => (Option.not_mem_none _ hv).elim, hcounted.withStore fun key' entry hentry => ?_⟩
      exact h level key' entry hentry
    | some e =>
      dsimp only
      split
      · refine ⟨fun _ hv => (Option.not_mem_none _ hv).elim, hcounted.withStore fun key' entry hentry => ?_⟩
        by_cases hkey : key' = key
        · rw [hkey, AList.lookup_erase] at hentry
          cases hentry
        · rw [AList.lookup_erase_ne hkey] at hentry
          exact h level key' entry hentry
      · refine ⟨?_, hcounted.withStore fun key' entry hentry => ?_⟩
        · rintro v ⟨⟩
          exact h level key e hlookup
        · by_cases hkey : key' = key
          · rw [hkey, OrderedDict.lookup_put_self] at hentry
            cases hentry
            exact hkey ▸ h level key e hlookup
          · rw [OrderedDict.lookup_put_of_ne _ _ hkey] at hentry
            exact h level key' entry hentry
  · exact ⟨fun _ hv => (Option.not_mem_none _ hv).elim, h⟩

/-- **A write** stores its value, or leaves an emptied store when it raises. -/
theorem Holds.setIn {c' : QueryCache ν} {dropped : List CacheKey} {v : ν} {expiresAt : ℚ} (h : Holds P c)
    (hv : P level key v) (hset : c.setIn level key v expiresAt = some (dropped, c')) : Holds P c' := by
  obtain ⟨⟨dropped', d⟩, hwrite, heq⟩ := Option.map_eq_some_iff.mp hset
  cases heq
  refine Holds.withStore (h.congr fun level' => by cases level' <;> rfl) fun key' entry hentry => ?_
  by_cases hkey : key' = key
  · subst hkey
    obtain ⟨-, -, rfl⟩ | ⟨-, rest, -, rfl⟩ := writeEntry_cases hwrite
    all_goals
      rw [OrderedDict.lookup_put_self] at hentry
      cases hentry
      exact hv
  · refine h level key' entry ?_
    obtain ⟨-, -, rfl⟩ | ⟨-, rest, hroom, rfl⟩ := writeEntry_cases hwrite
    · rwa [OrderedDict.lookup_put_of_ne _ _ hkey] at hentry
    · rw [OrderedDict.lookup_put_of_ne _ _ hkey] at hentry
      have hnot : key' ∉ dropped' := by
        intro hmem
        rw [hroom.lookup_dropped hmem] at hentry
        cases hentry
      rwa [hroom.lookup_eq hnot] at hentry

theorem Holds.emptied (h : Holds P c) : Holds P (c.emptied level) :=
  Holds.withStore (h.congr fun level' => by cases level' <;> rfl) fun _ _ hentry => by cases hentry

/-- **`set`** stores its response under both keys at most. -/
theorem Holds.set {f : CacheFolding} {question mode : String} {v : ν} {prefixVersion scopeKey sql : String}
    (h : Holds P c) (now : ℚ) (hquestion : P .question (f.questionKey question mode prefixVersion scopeKey) v)
    (hsql : P .sql (sqlKey sql mode prefixVersion scopeKey) v) :
    Holds P (c.set f now question mode v prefixVersion (some sql) scopeKey).after := by
  unfold QueryCache.set
  split
  · dsimp only
    have hfirst : Holds P
        (c.setQuestion (f.questionKey question mode prefixVersion scopeKey) v (now + c.ttl)).after := by
      unfold QueryCache.setQuestion
      cases hset : c.setIn .question (f.questionKey question mode prefixVersion scopeKey) v (now + c.ttl) with
      | none => exact h.emptied
      | some r => exact h.setIn hquestion hset
    split
    · split
      · exact hfirst
      · rename_i text htext
        obtain rfl : sql = text := (Option.some_inj.mp (Option.filter_eq_some_iff.mp htext).1)
        unfold QueryCache.setSql
        generalize c.setQuestion _ v (now + c.ttl) = o at hfirst ⊢
        cases hset : o.after.setIn .sql (sqlKey sql mode prefixVersion scopeKey) v (now + c.ttl) with
        | none => exact hfirst.emptied
        | some r => exact hfirst.setIn hsql hset
    · exact hfirst
  · exact h

end Holds

/-! ## Where rows come from -/

/-- The text a statement is stored under. -/
def statementText (sql : String) : String := String.ofList (strip (collapseSpaces sql.toList))

/-- **An execution** of a loop: the database returned the frame for a statement the guard had approved under the
denied columns of the request. -/
structure Executed (r : QueryRequest) (run : AgentRun) (sql : String) (data : DataFrame) : Prop where
  /-- The loop ran under the caller's denied columns. -/
  denied : run.settings.deniedColumns = r.denied
  /-- The statement was executed, approved, and returned the frame. -/
  executed : ∃ newer older, run.outcome.2 = newer ++ .executed sql :: older ∧
    run.world.execute older sql = .ok data ∧ Approved run.world.toLoopWorld run.settings sql older

section Traced

variable (digest : String → String) (f : CacheFolding) (F : Frames ρ)
variable {runs runs' : List (QueryRequest × AgentRun)} {mode : String} {prefixVersion scope text : String} {rows : ρ}

/-- Rows that come from an execution in the same mode, prefix version and scope, of a statement with that text. -/
def Traced (runs : List (QueryRequest × AgentRun)) (mode prefixVersion scope text : String) (rows : ρ) : Prop :=
  ∃ q ∈ runs, q.1.mode.text = mode ∧ q.1.prefixVersion = prefixVersion ∧ q.1.cacheScope digest = scope ∧
    ∃ sql data, statementText sql = text ∧ Executed q.1 q.2 sql data ∧ F.Recorded data rows

/-- A response whose rows come from such an execution, of the statement it shows, if it shows one. -/
def ResponseTraced (runs : List (QueryRequest × AgentRun)) (mode prefixVersion scope text : String)
    (response : QueryResponse ρ) : Prop :=
  (∀ shown ∈ response.sql, statementText shown = text) ∧
    ∃ rows, response.result = some rows ∧ Traced digest F runs mode prefixVersion scope text rows

/-- An entry of the cache with such a response. -/
def EntryTraced (runs : List (QueryRequest × AgentRun)) (level : CacheLevel) (key : CacheKey)
    (response : QueryResponse ρ) : Prop :=
  ∃ prefixVersion text,
    key.prefixVersion = (if level = .question then prefixVersion ++ "|" ++ f.questionKeyNamespace else prefixVersion) ∧
    (level = .sql → key.text = text) ∧
    ResponseTraced digest F runs key.mode prefixVersion key.scopeKey text response

variable {digest f F}

theorem ResponseTraced.mono {response : QueryResponse ρ}
    (h : ResponseTraced digest F runs mode prefixVersion scope text response) (hruns : runs ⊆ runs') :
    ResponseTraced digest F runs' mode prefixVersion scope text response := by
  obtain ⟨hshown, rows, hrows, q, hq, htraced⟩ := h
  exact ⟨hshown, rows, hrows, q, hruns hq, htraced⟩

theorem EntryTraced.mono {level : CacheLevel} {key : CacheKey} {response : QueryResponse ρ}
    (h : EntryTraced digest f F runs level key response) (hruns : runs ⊆ runs') :
    EntryTraced digest f F runs' level key response := by
  obtain ⟨pv, text, hpv, htext, hresponse⟩ := h
  exact ⟨pv, text, hpv, htext, hresponse.mono hruns⟩

/-- What the cache has for a question is traced to the request's mode, prefix version and scope. -/
theorem responseTraced_of_question {question : String} {response : QueryResponse ρ}
    (h : EntryTraced digest f F runs .question (f.questionKey question mode prefixVersion scope) response) :
    ∃ text, ResponseTraced digest F runs mode prefixVersion scope text response := by
  obtain ⟨pv, text, hpv, -, hresponse⟩ := h
  rw [if_pos rfl] at hpv
  have heq : prefixVersion = pv := by
    have happ : prefixVersion ++ "|" ++ f.questionKeyNamespace = pv ++ "|" ++ f.questionKeyNamespace := hpv
    have hlist := congrArg String.toList happ
    simp only [String.toList_append] at hlist
    exact String.toList_injective (List.append_cancel_right (List.append_cancel_right hlist))
  exact ⟨text, heq ▸ hresponse⟩

/-- What it has for a statement is traced to the statement's text besides. -/
theorem responseTraced_of_sql {sql : String} {response : QueryResponse ρ}
    (h : EntryTraced digest f F runs .sql (sqlKey sql mode prefixVersion scope) response) :
    ResponseTraced digest F runs mode prefixVersion scope (statementText sql) response := by
  obtain ⟨pv, text, hpv, htext, hresponse⟩ := h
  rw [if_neg (by decide)] at hpv
  rw [← htext rfl, ← hpv] at hresponse
  exact hresponse

/-! ## Whole runs -/

variable (digest f F)

/-- **The invariant**: whatever the cache has or had, and whatever was answered, is traced; the requests are
among those that occur. -/
structure Sound (texts : Set String) (s : State ρ) : Prop where
  caches : ∀ c ∈ s.cache :: s.past, Holds (EntryTraced digest f F s.runs) c
  answered : ∀ a ∈ s.answers, ∃ text,
    ResponseTraced digest F s.runs a.1.mode.text a.1.prefixVersion (a.1.cacheScope digest) text a.2
  occur : ∀ r ∈ s.runs.map (·.1) ++ s.answers.map (·.1), ∀ p ∈ r.principal, scopeText p noMemory ∈ texts

variable {digest f F} {texts : Set String} {s : State ρ}

theorem sound_init (ttlSeconds maxSize : ℤ) : Sound digest f F texts (State.init ttlSeconds maxSize) where
  caches := by
    intro c hc
    rw [List.mem_singleton.mp hc]
    exact holds_of_empty fun level => by cases level <;> rfl
  answered := by simp [State.init]
  occur := by simp [State.init]

/-- The cache goes on to what holds the same. -/
theorem Sound.move (h : Sound digest f F texts s) {c : QueryCache (QueryResponse ρ)}
    (hc : Holds (EntryTraced digest f F s.runs) c) : Sound digest f F texts (s.move c) where
  caches := by
    intro c' hc'
    obtain rfl | hmem := List.mem_cons.mp hc'
    · exact hc
    · exact h.caches c' hmem
  answered := h.answered
  occur := h.occur

/-- One more answer. -/
theorem Sound.answer (h : Sound digest f F texts s) {r : QueryRequest} {response : QueryResponse ρ} {text : String}
    (hresponse : ResponseTraced digest F s.runs r.mode.text r.prefixVersion (r.cacheScope digest) text response)
    (hoccurs : ∀ p ∈ r.principal, scopeText p noMemory ∈ texts) :
    Sound digest f F texts { s with answers := (r, response) :: s.answers } where
  caches := h.caches
  answered := by
    intro a ha
    obtain rfl | hmem := List.mem_cons.mp ha
    · exact ⟨text, hresponse⟩
    · exact h.answered a hmem
  occur := by
    intro r' hr'
    rw [List.map_cons] at hr'
    obtain hmem | hmem := List.mem_append.mp hr'
    · exact h.occur r' (List.mem_append_left _ hmem)
    · obtain rfl | hmem := List.mem_cons.mp hmem
      · exact hoccurs
      · exact h.occur r' (List.mem_append_right _ hmem)

/-- One more run. -/
theorem Sound.run (h : Sound digest f F texts s) {r : QueryRequest} (run : AgentRun)
    (hoccurs : ∀ p ∈ r.principal, scopeText p noMemory ∈ texts) :
    Sound digest f F texts { s with runs := (r, run) :: s.runs } where
  caches c hc := (h.caches c hc).mono fun _ _ _ hentry => hentry.mono (List.subset_cons_self _ _)
  answered a ha := (h.answered a ha).imp fun _ hresponse => hresponse.mono (List.subset_cons_self _ _)
  occur := by
    intro r' hr'
    rw [List.map_cons, List.cons_append] at hr'
    obtain rfl | hmem := List.mem_cons.mp hr'
    · exact hoccurs
    · exact h.occur r' hmem

/-- **The response of a loop** that returned: its rows were executed in it, or were in the cache. -/
theorem responseTraced_of_finish (h : Sound digest f F texts s) {r : QueryRequest} {run : AgentRun} {now : ℚ}
    {result : SqlGenerationResult} (hhonest : QueryStep.Honest digest F s (.finish r run now))
    (houtcome : run.outcome.1 = .ok result) :
    ResponseTraced digest F ((r, run) :: s.runs) r.mode.text r.prefixVersion (r.cacheScope digest)
      (statementText result.sql) (r.response F result) := by
  obtain ⟨hdenied, hlookups⟩ := hhonest
  refine ⟨?_, _, rfl, ?_⟩
  · intro shown hshown
    unfold QueryRequest.response at hshown
    dsimp only at hshown
    split at hshown
    · cases hshown
      rfl
    · cases hshown
  · obtain ⟨older, hlog, hexecute, happroved⟩ | hcached := exec_attemptLoop (Prod.ext houtcome rfl)
    · exact ⟨(r, run), List.mem_cons_self, rfl, rfl, rfl, result.sql, result.data, rfl,
        ⟨hdenied, [], older, hlog, hexecute, happroved⟩, .first⟩
    · obtain ⟨-, c, hc, now', hrows⟩ := hlookups _ _ _ hcached
      obtain ⟨response, hhit, hresult⟩ := Option.bind_eq_some_iff.mp hrows
      obtain ⟨rows, hresult, hdata⟩ := Option.map_eq_some_iff.mp hresult
      have hentry := ((h.caches c hc).lookupAt .sql now' _).1 response hhit
      obtain ⟨-, rows', hrows', q, hq, hmode, hpv, hscope, sql, data, htext, hexecuted, hrecorded⟩ :=
        responseTraced_of_sql hentry
      obtain rfl : rows = rows' := Option.some_inj.mp (hresult.symm.trans hrows')
      refine ⟨q, List.mem_cons_of_mem _ hq, hmode, hpv, hscope, sql, data, htext, hexecuted, ?_⟩
      rw [← hdata]
      exact hrecorded.again

/-- What a step is allowed to be in the runs at hand. -/
def QueryStep.Occurs (digest : String → String) (F : Frames ρ) (texts : Set String) (s : State ρ) (l : QueryStep) :
    Prop :=
  l.Honest digest F s ∧ ∀ r ∈ l.request?, ∀ p ∈ r.principal, scopeText p noMemory ∈ texts

/-- **Every step** keeps the invariant. -/
theorem sound_step {s' : State ρ} {l : QueryStep} (h : Sound digest f F texts s) (hl : l.Occurs digest F texts s)
    (hstep : queryStep digest f F s l = some s') : Sound digest f F texts s' := by
  obtain ⟨hhonest, hoccurs⟩ := hl
  have hcache := h.caches s.cache List.mem_cons_self
  cases l with
  | look r now =>
    unfold queryStep at hstep
    dsimp only at hstep
    split at hstep
    · cases hstep
      have hlook := hcache.lookupAt .question now
        (f.questionKey r.question r.mode.text r.prefixVersion (r.cacheScope digest))
      have hmoved := h.move hlook.2
      unfold QueryCache.get
      cases hhit : (s.cache.lookupAt .question now
        (f.questionKey r.question r.mode.text r.prefixVersion (r.cacheScope digest))).1 with
      | none => exact hmoved
      | some response =>
        obtain ⟨text, hresponse⟩ := responseTraced_of_question (hlook.1 response hhit)
        exact hmoved.answer hresponse (hoccurs r rfl)
    · cases hstep
  | lookSql r sql now =>
    unfold queryStep at hstep
    dsimp only at hstep
    split at hstep
    · cases hstep
      exact h.move (hcache.lookupAt .sql now _).2
    · cases hstep
  | finish r run now =>
    unfold queryStep at hstep
    dsimp only at hstep
    split at hstep
    · rename_i result houtcome
      cases hstep
      have hresponse := responseTraced_of_finish h hhonest houtcome
      have hrun := h.run run (hoccurs r rfl)
      unfold finish
      dsimp only
      split
      · have hquestion : EntryTraced digest f F ((r, run) :: s.runs) .question
            (f.questionKey r.question r.mode.text r.prefixVersion (r.cacheScope digest)) (r.response F result) :=
          ⟨r.prefixVersion, statementText result.sql, rfl, (fun hlevel => by cases hlevel), hresponse⟩
        have hsql : EntryTraced digest f F ((r, run) :: s.runs) .sql
            (sqlKey result.sql r.mode.text r.prefixVersion (r.cacheScope digest)) (r.response F result) :=
          ⟨r.prefixVersion, statementText result.sql, rfl, fun _ => rfl, hresponse⟩
        have hmoved := hrun.move ((hrun.caches s.cache List.mem_cons_self).set now hquestion hsql)
        split
        · exact hmoved.answer hresponse (hoccurs r rfl)
        · exact hmoved
      · exact hrun.answer hresponse (hoccurs r rfl)
    · cases hstep
      exact h
  | clear =>
    cases hstep
    exact h.move (holds_of_empty (QueryCache.storeAt_clear _))
  | reconfigure ttlSeconds maxSize =>
    cases hstep
    exact h.move (holds_of_empty (QueryCache.storeAt_reconfigure _ _ _))

end Traced

/-- Equal scopes mean equal visibility, among principals whose texts the digest tells apart. -/
theorem sameDenied_of_scope {digest : String → String} {texts : Set String} (hdigest : Set.InjOn digest texts)
    (hnonempty : ∀ text ∈ texts, digest text ≠ "") {r r' : QueryRequest}
    (hr : ∀ p ∈ r.principal, scopeText p noMemory ∈ texts)
    (hr' : ∀ p ∈ r'.principal, scopeText p noMemory ∈ texts)
    (hscope : r.cacheScope digest = r'.cacheScope digest) : r.SameDenied r' := by
  unfold QueryRequest.SameDenied QueryRequest.denied
  unfold QueryRequest.cacheScope at hscope
  cases hp : r.principal with
  | none =>
    cases hp' : r'.principal with
    | none => rfl
    | some p' =>
      rw [hp, hp'] at hscope
      exact absurd hscope.symm (hnonempty _ (hr' p' hp'))
  | some p =>
    cases hp' : r'.principal with
    | none =>
      rw [hp, hp'] at hscope
      exact absurd hscope (hnonempty _ (hr p hp))
    | some p' =>
      rw [hp, hp'] at hscope
      obtain ⟨hdenied, -⟩ := scopeText_eq (hdigest (hr p hp) (hr' p' hp') hscope)
      exact congrArg some hdenied

/-- A model that answers with one statement, a guard that accepts it and a database of one row. -/
def oneRowRun : AgentRun where
  world :=
    { generate := fun _ => .ok ⟨"SELECT 1", "stop"⟩
      cleanSql := .ok
      validateSql := fun _ _ _ _ => .ok ()
      ensureTop := fun sql _ => .ok sql
      transpileSql := fun _ sql => .ok sql
      touchedTables := fun _ _ => []
      fixFilterSpelling := fun _ _ _ _ => none
      unknownValues := fun _ _ _ _ => []
      execute := fun _ _ => .ok ⟨["n"], [["1"]]⟩
      repr := id
      lower := id
      sqlCacheLookup := fun _ _ => .ok none }
  settings :=
    { maxCorrections := 1
      defaultTopN := 100
      sqlDialect := .tsql
      filterValueSpelling := false
      filterValueCheck := false
      deniedColumns := some [] }
  routing := none

/-- A question of a principal without denied columns. -/
def plainRequest (id : String) : QueryRequest := ⟨"how many", .full, false, some ⟨id, id, [], ∅⟩, "v1"⟩

/-- Data frames by their rows. -/
def rowFrames : Frames (List (List String)) := ⟨DataFrame.rows, fun rows => ⟨[], rows⟩⟩

end RunQuery

end LocalSqlAgent
