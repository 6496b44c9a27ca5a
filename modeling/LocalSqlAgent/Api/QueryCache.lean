import Mathlib.Algebra.Order.Ring.Rat
import LocalSqlAgent.Lib.ExpiringCache
import LocalSqlAgent.Lib.PyText

/-! # The query cache

`api.query_cache.QueryCache`: responses under two keys, the normalised question and the generated SQL,
each in its own `OrderedDict` with a time to live and a bound on its size. Every method runs under one
lock with one reading of the clock, which is an argument here. Responses are copied in and out, so a
response is a value. -/

namespace LocalSqlAgent

universe u

/-- `tuple[str, str, str, str]`: versioned prefix, text, mode, scope key. -/
structure CacheKey where
  /-- The prefix version. -/
  prefixVersion : String
  /-- The normalised question or SQL. -/
  text : String
  /-- `mode`. -/
  mode : String
  /-- `scope_key`. -/
  scopeKey : String
  deriving DecidableEq, Repr

/-- The question folding the cache keys on. -/
structure CacheFolding where
  /-- `_normalize_question`. -/
  normalizeQuestion : String → String
  /-- `_QUESTION_KEY_NAMESPACE`. -/
  questionKeyNamespace : String

/-- `_question_key`. -/
def CacheFolding.questionKey (f : CacheFolding) (question mode prefixVersion scopeKey : String) : CacheKey :=
  ⟨prefixVersion ++ "|" ++ f.questionKeyNamespace, f.normalizeQuestion question, mode, scopeKey⟩

/-- `_sql_key`. -/
def sqlKey (sql mode prefixVersion scopeKey : String) : CacheKey :=
  ⟨prefixVersion, String.ofList (strip (collapseSpaces sql.toList)), mode, scopeKey⟩

/-- The two stores. -/
inductive CacheLevel
  /-- `_store`. -/
  | question
  /-- `_sql_store`. -/
  | sql
  deriving DecidableEq, Repr

/-- `QueryCache`. -/
structure QueryCache (ρ : Type u) where
  /-- `_ttl`. -/
  ttl : ℤ
  /-- `_max_size`. -/
  maxSize : ℤ
  /-- `_store`. -/
  store : OrderedDict CacheKey (Expiring ρ ℚ)
  /-- `_sql_store`. -/
  sqlStore : OrderedDict CacheKey (Expiring ρ ℚ)
  /-- `_hits`. -/
  hits : ℕ
  /-- `_misses`. -/
  misses : ℕ
  /-- `_evictions`. -/
  evictions : ℕ

open OrderedDict

namespace QueryCache

variable {ρ : Type u}

/-- `QueryCache(ttl_seconds, max_size)`. -/
def new (ttlSeconds maxSize : ℤ) : QueryCache ρ := ⟨ttlSeconds, maxSize, ∅, ∅, 0, 0, 0⟩

/-- `enabled`. -/
def enabled (c : QueryCache ρ) : Bool := decide (0 < c.ttl)

/-- One of the two stores. -/
def storeAt (c : QueryCache ρ) : CacheLevel → OrderedDict CacheKey (Expiring ρ ℚ)
  | .question => c.store
  | .sql => c.sqlStore

/-- The cache with one of its stores replaced. -/
def withStore (c : QueryCache ρ) (level : CacheLevel) (d : OrderedDict CacheKey (Expiring ρ ℚ)) :
    QueryCache ρ :=
  match level with
  | .question => { c with store := d }
  | .sql => { c with sqlStore := d }

@[simp] theorem storeAt_withStore_self (c : QueryCache ρ) (level : CacheLevel)
    (d : OrderedDict CacheKey (Expiring ρ ℚ)) : (c.withStore level d).storeAt level = d := by
  cases level <;> rfl

theorem storeAt_withStore_of_ne (c : QueryCache ρ) {level level' : CacheLevel} (h : level' ≠ level)
    (d : OrderedDict CacheKey (Expiring ρ ℚ)) : (c.withStore level d).storeAt level' = c.storeAt level' := by
  cases level <;> cases level' <;> first | rfl | exact absurd rfl h

@[simp] theorem withStore_ttl (c : QueryCache ρ) (level : CacheLevel)
    (d : OrderedDict CacheKey (Expiring ρ ℚ)) : (c.withStore level d).ttl = c.ttl := by
  cases level <;> rfl

@[simp] theorem withStore_maxSize (c : QueryCache ρ) (level : CacheLevel)
    (d : OrderedDict CacheKey (Expiring ρ ℚ)) : (c.withStore level d).maxSize = c.maxSize := by
  cases level <;> rfl

/-- The counters after a lookup: a hit, or a miss that dropped an expired entry or found none. -/
def counted (c : QueryCache ρ) (level : CacheLevel) (now : ℚ) (key : CacheKey) : QueryCache ρ :=
  match (c.storeAt level).lookup key with
  | none => { c with misses := c.misses + 1 }
  | some e =>
    if e.deadline < now then { c with evictions := c.evictions + 1, misses := c.misses + 1 }
    else { c with hits := c.hits + 1 }

/-- `_get_from`. -/
def getFrom (c : QueryCache ρ) (level : CacheLevel) (now : ℚ) (key : CacheKey) : Option ρ × QueryCache ρ :=
  let r := readEntry now key (c.storeAt level)
  (r.1, (c.counted level now key).withStore level r.2)

/-- `get` and `get_by_sql`: a lookup in one store, nothing while the cache is disabled. -/
def lookupAt (c : QueryCache ρ) (level : CacheLevel) (now : ℚ) (key : CacheKey) : Option ρ × QueryCache ρ :=
  if c.enabled then c.getFrom level now key else (none, c)

/-- `get`. -/
def get (c : QueryCache ρ) (f : CacheFolding) (now : ℚ) (question mode prefixVersion scopeKey : String) :
    Option ρ × QueryCache ρ :=
  c.lookupAt .question now (f.questionKey question mode prefixVersion scopeKey)

/-- `get_by_sql`. -/
def getBySql (c : QueryCache ρ) (now : ℚ) (sql mode prefixVersion scopeKey : String) :
    Option ρ × QueryCache ρ :=
  c.lookupAt .sql now (sqlKey sql mode prefixVersion scopeKey)

/-- `_set_in`, with the keys it evicted. `none` is the `KeyError` of `popitem` on an emptied store. -/
def setIn (c : QueryCache ρ) (level : CacheLevel) (key : CacheKey) (stored : ρ) (expiresAt : ℚ) :
    Option (List CacheKey × QueryCache ρ) :=
  (writeEntry c.maxSize key ⟨stored, expiresAt⟩ (c.storeAt level)).map fun r =>
    (r.1, { c with evictions := c.evictions + r.1.length }.withStore level r.2)

/-- What the `KeyError` of `_set_in` leaves: everything was popped. -/
def emptied (c : QueryCache ρ) (level : CacheLevel) : QueryCache ρ :=
  { c with evictions := c.evictions + size (c.storeAt level) }.withStore level ∅

/-- What a call of `set` did: the keys evicted from each store, or nothing but a `KeyError`, and the
cache after. -/
structure SetOutcome (ρ : Type u) where
  /-- No exception. -/
  returned : Bool
  /-- The keys evicted from each store. -/
  evicted : CacheLevel → List CacheKey
  /-- The cache after. -/
  after : QueryCache ρ

/-- The first half of `set`: the question-keyed store. -/
def setQuestion (c : QueryCache ρ) (key : CacheKey) (stored : ρ) (expiresAt : ℚ) : SetOutcome ρ :=
  match c.setIn .question key stored expiresAt with
  | none => ⟨false, fun _ => [], c.emptied .question⟩
  | some (dropped, c') => ⟨true, fun level => if level = .question then dropped else [], c'⟩

/-- The second half of `set`, where the SQL is known: the SQL-keyed store. -/
def setSql (o : SetOutcome ρ) (key : CacheKey) (stored : ρ) (expiresAt : ℚ) : SetOutcome ρ :=
  match o.after.setIn .sql key stored expiresAt with
  | none => ⟨false, o.evicted, o.after.emptied .sql⟩
  | some (dropped, c') => ⟨true, fun level => if level = .sql then dropped else o.evicted level, c'⟩

/-- `set`. An empty SQL text counts as none. -/
def set (c : QueryCache ρ) (f : CacheFolding) (now : ℚ) (question mode : String) (response : ρ)
    (prefixVersion : String) (sql : Option String) (scopeKey : String) : SetOutcome ρ :=
  if c.enabled then
    let expiresAt := now + c.ttl
    let first := c.setQuestion (f.questionKey question mode prefixVersion scopeKey) response expiresAt
    if first.returned then
      match sql.filter (· ≠ "") with
      | none => first
      | some text => setSql first (sqlKey text mode prefixVersion scopeKey) response expiresAt
    else first
  else ⟨true, fun _ => [], c⟩

/-- `clear`. -/
def clear (c : QueryCache ρ) : QueryCache ρ := { c with store := ∅, sqlStore := ∅ }

/-- `reconfigure`. -/
def reconfigure (c : QueryCache ρ) (ttlSeconds maxSize : ℤ) : QueryCache ρ :=
  { c with ttl := ttlSeconds, maxSize := maxSize, store := ∅, sqlStore := ∅ }

@[simp] theorem storeAt_clear (c : QueryCache ρ) (level : CacheLevel) : c.clear.storeAt level = ∅ := by
  cases level <;> rfl

@[simp] theorem storeAt_reconfigure (c : QueryCache ρ) (ttlSeconds maxSize : ℤ) (level : CacheLevel) :
    (c.reconfigure ttlSeconds maxSize).storeAt level = ∅ := by
  cases level <;> rfl

end QueryCache

/-! ## Operations -/

/-- A call of one of the methods. -/
inductive CacheOp (ρ : Type u)
  /-- `get`. -/
  | get (question mode prefixVersion scopeKey : String)
  /-- `get_by_sql`. -/
  | getBySql (sql mode prefixVersion scopeKey : String)
  /-- `set`. -/
  | set (question mode : String) (response : ρ) (prefixVersion : String) (sql : Option String)
      (scopeKey : String)
  /-- `clear`. -/
  | clear
  /-- `reconfigure`. -/
  | reconfigure (ttlSeconds maxSize : ℤ)

/-- One call as it happened. -/
structure CacheVisit (ρ : Type u) where
  /-- The call. -/
  op : CacheOp ρ
  /-- The reading of the clock. -/
  now : ℚ
  /-- The cache before. -/
  before : QueryCache ρ
  /-- What a lookup answered. -/
  answer : Option ρ
  /-- No exception. -/
  returned : Bool
  /-- The keys evicted for size from each store. -/
  evicted : CacheLevel → List CacheKey
  /-- The cache after. -/
  after : QueryCache ρ

namespace QueryCache

variable {ρ : Type u}

/-- Do one call. -/
def visit (f : CacheFolding) (c : QueryCache ρ) (now : ℚ) (op : CacheOp ρ) : CacheVisit ρ :=
  match op with
  | .get question mode prefixVersion scopeKey =>
    let r := c.get f now question mode prefixVersion scopeKey
    ⟨op, now, c, r.1, true, fun _ => [], r.2⟩
  | .getBySql sql mode prefixVersion scopeKey =>
    let r := c.getBySql now sql mode prefixVersion scopeKey
    ⟨op, now, c, r.1, true, fun _ => [], r.2⟩
  | .set question mode response prefixVersion sql scopeKey =>
    let o := c.set f now question mode response prefixVersion sql scopeKey
    ⟨op, now, c, none, o.returned, o.evicted, o.after⟩
  | .clear => ⟨op, now, c, none, true, fun _ => [], c.clear⟩
  | .reconfigure ttlSeconds maxSize =>
    ⟨op, now, c, none, true, fun _ => [], c.reconfigure ttlSeconds maxSize⟩

/-- The calls of a run as they happened. -/
def trace (f : CacheFolding) : QueryCache ρ → List (ℚ × CacheOp ρ) → List (CacheVisit ρ)
  | _, [] => []
  | c, (now, op) :: rest => c.visit f now op :: (c.visit f now op).after.trace f rest

end QueryCache

end LocalSqlAgent
