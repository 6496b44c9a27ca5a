import Mathlib.Data.List.Induction
import LocalSqlAgent.Api.QueryCache

/-! # The query cache as a bounded expiring map

`CacheLaw` is what callers rely on: a lookup answers with what the last `set` of its key stored, unless
that set expired, was evicted for size, or a `clear` or `reconfigure` came after it; the stores stay
within their bound; no call raises. `cacheLaw_iff` proves it for every run at times that do not go
back, exactly for the limits that leave room for an entry wherever the cache is enabled.

One call does one thing to each store (`LevelStep`); the abstract map `ideal` makes the same step, and
the store tracks it. -/

namespace LocalSqlAgent

open OrderedDict

universe u

variable {ρ : Type u} {f : CacheFolding}

/-! ## What a call does to a store -/

namespace CacheOp

/-- The key a call looks up in a store. -/
def reads (f : CacheFolding) : CacheOp ρ → CacheLevel → Option CacheKey
  | .get question mode prefixVersion scopeKey, .question =>
    some (f.questionKey question mode prefixVersion scopeKey)
  | .getBySql sql mode prefixVersion scopeKey, .sql => some (sqlKey sql mode prefixVersion scopeKey)
  | _, _ => none

/-- The key a call sets in a store, and the response. -/
def writes (f : CacheFolding) : CacheOp ρ → CacheLevel → Option (CacheKey × ρ)
  | .set question mode response prefixVersion _ scopeKey, .question =>
    some (f.questionKey question mode prefixVersion scopeKey, response)
  | .set _ mode response prefixVersion sql scopeKey, .sql =>
    (sql.filter (· ≠ "")).map fun text => (sqlKey text mode prefixVersion scopeKey, response)
  | _, _ => none

/-- The call flushes the cache. -/
def wipes : CacheOp ρ → Bool
  | .clear => true
  | .reconfigure _ _ => true
  | _ => false

end CacheOp

/-- Limits that leave room for an entry wherever the cache is enabled. -/
def LimitsOk (ttlSeconds maxSize : ℤ) : Prop := 0 ≤ maxSize ∧ (0 < ttlSeconds → 1 ≤ maxSize)

/-- The limits a call puts in force, if it does, leave that room. -/
def CacheOp.Admissible : CacheOp ρ → Prop
  | .reconfigure ttlSeconds maxSize => LimitsOk ttlSeconds maxSize
  | _ => True

/-- **What one call does to one store.** -/
inductive LevelStep (f : CacheFolding) (v : CacheVisit ρ) (level : CacheLevel) : Prop
  /-- It is flushed. -/
  | wiped (hop : v.op.wipes = true) (hreads : v.op.reads f level = none) (hevicted : v.evicted level = [])
      (hafter : v.after.storeAt level = ∅)
  /-- A key is set in it. -/
  | wrote (key : CacheKey) (r : ρ) (hop : v.op.wipes = false) (hreads : v.op.reads f level = none)
      (hwrites : v.op.writes f level = some (key, r)) (henabled : 0 < v.before.ttl)
      (hwrite : writeEntry v.before.maxSize key ⟨r, v.now + v.before.ttl⟩ (v.before.storeAt level)
        = some (v.evicted level, v.after.storeAt level))
      (hlimits : v.after.ttl = v.before.ttl ∧ v.after.maxSize = v.before.maxSize)
  /-- A key is looked up in it. -/
  | looked (key : CacheKey) (hop : v.op.wipes = false) (hreads : v.op.reads f level = some key)
      (hwrites : v.op.writes f level = none) (henabled : 0 < v.before.ttl) (hevicted : v.evicted level = [])
      (hread : readEntry v.now key (v.before.storeAt level) = (v.answer, v.after.storeAt level))
      (hlimits : v.after.ttl = v.before.ttl ∧ v.after.maxSize = v.before.maxSize)
  /-- Nothing: the call is about the other store, or the cache is disabled. -/
  | idle (hop : v.op.wipes = false) (hevicted : v.evicted level = [])
      (hafter : v.after.storeAt level = v.before.storeAt level)
      (hreads : ∀ key, v.op.reads f level = some key → v.before.ttl ≤ 0 ∧ v.answer = none)
      (hwrites : v.op.writes f level ≠ none → v.before.ttl ≤ 0)
      (hlimits : v.after.ttl = v.before.ttl ∧ v.after.maxSize = v.before.maxSize)

namespace QueryCache

variable {c : QueryCache ρ}

theorem counted_storeAt (c : QueryCache ρ) (level level' : CacheLevel) (now : ℚ) (key : CacheKey) :
    (c.counted level now key).storeAt level' = c.storeAt level' := by
  unfold counted
  split
  · cases level' <;> rfl
  · split <;> cases level' <;> rfl

theorem counted_limits (c : QueryCache ρ) (level : CacheLevel) (now : ℚ) (key : CacheKey) :
    (c.counted level now key).ttl = c.ttl ∧ (c.counted level now key).maxSize = c.maxSize := by
  unfold counted
  split
  · exact ⟨rfl, rfl⟩
  · split <;> exact ⟨rfl, rfl⟩

/-- Where a bound leaves room, setting a key in a store is a write to it, and nothing else. -/
theorem setIn_eq (hmax : 1 ≤ c.maxSize) (level : CacheLevel) (key : CacheKey) (r : ρ) (expiresAt : ℚ) :
    ∃ dropped c', c.setIn level key r expiresAt = some (dropped, c') ∧
      writeEntry c.maxSize key ⟨r, expiresAt⟩ (c.storeAt level) = some (dropped, c'.storeAt level) ∧
      (∀ level', level' ≠ level → c'.storeAt level' = c.storeAt level') ∧
      c'.ttl = c.ttl ∧ c'.maxSize = c.maxSize := by
  unfold setIn
  cases hwrite : writeEntry c.maxSize key ⟨r, expiresAt⟩ (c.storeAt level) with
  | none =>
    have hle := (writeEntry_eq_none_iff.mp hwrite).2
    omega
  | some w =>
    refine ⟨w.1, _, rfl, ?_, fun level' hne => ?_, withStore_ttl _ _ _, withStore_maxSize _ _ _⟩
    · rw [storeAt_withStore_self]
    · rw [storeAt_withStore_of_ne _ hne]
      cases level' <;> rfl

/-- What a lookup call does. -/
theorem lookup_levelStep (c : QueryCache ρ) (now : ℚ) (op : CacheOp ρ) (level level' : CacheLevel)
    (key : CacheKey) (hop : op.wipes = false) (hwrites : ∀ l, op.writes f l = none)
    (hreads : op.reads f level = some key) (hother : ∀ l, l ≠ level → op.reads f l = none)
    {v : CacheVisit ρ}
    (hv : v = ⟨op, now, c, (c.lookupAt level now key).1, true, fun _ => [], (c.lookupAt level now key).2⟩) :
    LevelStep f v level' := by
  subst hv
  unfold lookupAt enabled
  by_cases henabled : 0 < c.ttl
  · simp only [henabled, decide_true, if_true]
    have hlimits : (c.getFrom level now key).2.ttl = c.ttl ∧
        (c.getFrom level now key).2.maxSize = c.maxSize := by
      obtain ⟨httl, hmax⟩ := c.counted_limits level now key
      exact ⟨(withStore_ttl _ _ _).trans httl, (withStore_maxSize _ _ _).trans hmax⟩
    by_cases hlevel : level' = level
    · subst hlevel
      refine .looked key hop hreads (hwrites _) henabled rfl ?_ hlimits
      rw [getFrom, storeAt_withStore_self]
    · refine .idle hop rfl ?_ (fun k hk => ?_) (fun h => absurd (hwrites _) h) hlimits
      · rw [getFrom, storeAt_withStore_of_ne _ hlevel, counted_storeAt]
      · dsimp only at hk
        rw [hother level' hlevel] at hk
        cases hk
  · simp only [henabled, decide_false, Bool.false_eq_true, if_false]
    exact .idle hop rfl rfl (fun _ _ => ⟨not_lt.mp henabled, rfl⟩) (fun h => absurd (hwrites _) h) ⟨rfl, rfl⟩

/-- What a call of `set` does where there is room. -/
theorem set_levelStep (hok : LimitsOk c.ttl c.maxSize) (now : ℚ) (question mode : String) (r : ρ)
    (prefixVersion : String) (sql : Option String) (scopeKey : String) (level : CacheLevel) :
    LevelStep f (c.visit f now (.set question mode r prefixVersion sql scopeKey)) level ∧
      (c.visit f now (.set question mode r prefixVersion sql scopeKey)).returned = true := by
  unfold visit set enabled
  by_cases henabled : 0 < c.ttl
  · simp only [henabled, decide_true, if_true]
    obtain ⟨dropped, c₁, hset, hwrite, hother, httl, hmax⟩ := setIn_eq (hok.2 henabled) .question
      (f.questionKey question mode prefixVersion scopeKey) r (now + c.ttl)
    have hfirst : c.setQuestion (f.questionKey question mode prefixVersion scopeKey) r (now + c.ttl)
        = ⟨true, fun l => if l = .question then dropped else [], c₁⟩ := by
      rw [setQuestion, hset]
    have hsame : c₁.storeAt .sql = c.storeAt .sql := hother .sql (fun h => by cases h)
    rw [hfirst]
    dsimp only
    cases htext : sql.filter (· ≠ "") with
    | none =>
      refine ⟨?_, rfl⟩
      cases level with
      | question => exact .wrote _ r rfl rfl rfl henabled hwrite ⟨httl, hmax⟩
      | sql =>
        refine .idle rfl rfl hsame (fun k hk => nomatch hk) (fun h => absurd ?_ h) ⟨httl, hmax⟩
        simp only [CacheOp.writes, htext, Option.map_none]
    | some text =>
      have hroom : 1 ≤ c₁.maxSize := hmax ▸ hok.2 henabled
      obtain ⟨dropped₂, c₂, hset₂, hwrite₂, hother₂, httl₂, hmax₂⟩ := setIn_eq hroom .sql
        (sqlKey text mode prefixVersion scopeKey) r (now + c.ttl)
      have hquestion : c₂.storeAt .question = c₁.storeAt .question :=
        hother₂ .question (fun h => by cases h)
      rw [hsame, hmax] at hwrite₂
      dsimp only
      unfold setSql
      rw [hset₂]
      refine ⟨?_, rfl⟩
      cases level with
      | question =>
        refine .wrote _ r rfl rfl rfl henabled ?_ ⟨httl₂.trans httl, hmax₂.trans hmax⟩
        show writeEntry c.maxSize _ _ (c.storeAt .question) = some (dropped, c₂.storeAt .question)
        rw [hquestion]
        exact hwrite
      | sql =>
        refine .wrote (sqlKey text mode prefixVersion scopeKey) r rfl rfl ?_ henabled ?_
          ⟨httl₂.trans httl, hmax₂.trans hmax⟩
        · simp only [CacheOp.writes, htext, Option.map_some]
        · exact hwrite₂
  · simp only [henabled, decide_false, Bool.false_eq_true, if_false]
    exact ⟨.idle rfl rfl rfl (fun k hk => nomatch hk) (fun _ => not_lt.mp henabled) ⟨rfl, rfl⟩, trivial⟩

/-- **The step lemma**: every call does to each store one of the four things, and returns. -/
theorem visit_levelStep (hok : LimitsOk c.ttl c.maxSize) (now : ℚ) (op : CacheOp ρ) (level : CacheLevel) :
    LevelStep f (c.visit f now op) level ∧ (c.visit f now op).returned = true := by
  cases op with
  | get question mode prefixVersion scopeKey =>
    refine ⟨c.lookup_levelStep now _ .question level _ rfl (fun _ => rfl) rfl (fun l hl => ?_) rfl, rfl⟩
    cases l with
    | question => exact absurd rfl hl
    | sql => rfl
  | getBySql sql mode prefixVersion scopeKey =>
    refine ⟨c.lookup_levelStep now _ .sql level _ rfl (fun _ => rfl) rfl (fun l hl => ?_) rfl, rfl⟩
    cases l with
    | question => rfl
    | sql => exact absurd rfl hl
  | set question mode response prefixVersion sql scopeKey =>
    exact set_levelStep hok now question mode response prefixVersion sql scopeKey level
  | clear => exact ⟨.wiped rfl rfl rfl (storeAt_clear c level), rfl⟩
  | reconfigure ttlSeconds maxSize =>
    exact ⟨.wiped rfl rfl rfl (storeAt_reconfigure c ttlSeconds maxSize level), rfl⟩

/-- Only a flush changes the limits. -/
theorem limits_of_levelStep {v : CacheVisit ρ} {level : CacheLevel} (h : LevelStep f v level)
    (hop : v.op.wipes = false) : v.after.ttl = v.before.ttl ∧ v.after.maxSize = v.before.maxSize := by
  cases h with
  | wiped hwipes => exact nomatch hwipes.symm.trans hop
  | wrote _ _ _ _ _ _ _ hlimits => exact hlimits
  | looked _ _ _ _ _ _ _ hlimits => exact hlimits
  | idle _ _ _ _ _ hlimits => exact hlimits

@[simp] theorem visit_op (c : QueryCache ρ) (now : ℚ) (op : CacheOp ρ) : (c.visit f now op).op = op := by
  cases op <;> rfl

@[simp] theorem visit_now (c : QueryCache ρ) (now : ℚ) (op : CacheOp ρ) : (c.visit f now op).now = now := by
  cases op <;> rfl

@[simp] theorem visit_before (c : QueryCache ρ) (now : ℚ) (op : CacheOp ρ) :
    (c.visit f now op).before = c := by
  cases op <;> rfl

/-- Admissible calls keep the limits in force admissible. -/
theorem visit_limitsOk (hok : LimitsOk c.ttl c.maxSize) (now : ℚ) (op : CacheOp ρ) (hop : op.Admissible) :
    LimitsOk (c.visit f now op).after.ttl (c.visit f now op).after.maxSize := by
  cases hwipes : op.wipes with
  | true =>
    cases op with
    | reconfigure ttlSeconds maxSize => exact hop
    | clear => exact hok
    | get | getBySql | set => cases hwipes
  | false =>
    obtain ⟨httl, hmax⟩ := limits_of_levelStep (visit_levelStep (f := f) hok now op .question).1
      (by rw [visit_op]; exact hwipes)
    rw [httl, hmax, visit_before]
    exact hok

end QueryCache

/-! ## The abstract map of a run -/

namespace CacheVisit

/-- The response a call sets under a key of a store, if it does. -/
def sets (f : CacheFolding) (level : CacheLevel) (key : CacheKey) (v : CacheVisit ρ) : Option ρ :=
  match v.op.writes f level with
  | none => none
  | some (k, r) => if k = key then some r else none

/-- A call ends what was set under a key: a flush, or an eviction for size. -/
def ends (level : CacheLevel) (key : CacheKey) (v : CacheVisit ρ) : Prop :=
  v.op.wipes = true ∨ key ∈ v.evicted level

end CacheVisit

/-- **The set a key's entry stands for**: the last call that set the key, since when nothing set it
again, flushed the cache or evicted the key. -/
def LastSet (f : CacheFolding) (level : CacheLevel) (key : CacheKey) (visits : List (CacheVisit ρ))
    (s : CacheVisit ρ) (r : ρ) : Prop :=
  ∃ earlier later, visits = earlier ++ s :: later ∧ s.sets f level key = some r ∧
    ∀ v ∈ later, v.sets f level key = none ∧ ¬ v.ends level key

/-- What one call does to the abstract map of a store. A set while the cache is disabled counts as
expired at once. -/
def idealStep (f : CacheFolding) (level : CacheLevel) (m : ExpiringMap CacheKey ρ ℚ) (v : CacheVisit ρ) :
    ExpiringMap CacheKey ρ ℚ :=
  if v.op.wipes then ExpiringMap.empty
  else
    match v.op.writes f level with
    | none => m.drop (v.evicted level)
    | some (key, r) =>
      if 0 < v.before.ttl then (m.drop (v.evicted level)).write key ⟨r, v.now + v.before.ttl⟩
      else m.drop (key :: v.evicted level)

/-- The abstract map of a store after a run. -/
def ideal (f : CacheFolding) (level : CacheLevel) (visits : List (CacheVisit ρ)) : ExpiringMap CacheKey ρ ℚ :=
  visits.foldl (idealStep f level) ExpiringMap.empty

theorem ideal_concat (level : CacheLevel) (visits : List (CacheVisit ρ)) (v : CacheVisit ρ) :
    ideal f level (visits ++ [v]) = idealStep f level (ideal f level visits) v := by
  unfold ideal
  rw [List.foldl_append]
  rfl

/-- One more call: it set the key, or it left the last set standing. -/
theorem lastSet_concat {level : CacheLevel} {key : CacheKey} {visits : List (CacheVisit ρ)}
    {v s : CacheVisit ρ} {r : ρ} :
    LastSet f level key (visits ++ [v]) s r ↔
      (v = s ∧ v.sets f level key = some r) ∨
      (LastSet f level key visits s r ∧ v.sets f level key = none ∧ ¬ v.ends level key) := by
  constructor
  · rintro ⟨earlier, later, heq, hsets, hlater⟩
    rcases List.eq_nil_or_concat later with rfl | ⟨later, x, rfl⟩
    · obtain ⟨-, rfl⟩ := List.append_inj' heq rfl |>.imp_right List.singleton_inj.mp
      exact .inl ⟨rfl, hsets⟩
    · rw [List.concat_eq_append, ← List.cons_append, ← List.append_assoc] at heq
      obtain ⟨rfl, hx⟩ := List.append_inj' heq rfl
      obtain rfl := List.singleton_inj.mp hx
      rw [List.concat_eq_append] at hlater
      refine .inr ⟨⟨earlier, later, rfl, hsets, fun w hw => hlater w (List.mem_append_left _ hw)⟩, ?_⟩
      exact hlater v (List.mem_append_right _ List.mem_cons_self)
  · rintro (⟨rfl, hsets⟩ | ⟨⟨earlier, later, rfl, hsets, hlater⟩, hv⟩)
    · exact ⟨visits, [], rfl, hsets, fun w hw => nomatch hw⟩
    · refine ⟨earlier, later ++ [v], by rw [List.append_assoc, List.cons_append], hsets, fun w hw => ?_⟩
      obtain hw | hw := List.mem_append.mp hw
      · exact hlater w hw
      · rw [List.mem_singleton.mp hw]
        exact hv

/-- **The abstract map holds the last sets**, those made while the cache was enabled. -/
theorem ideal_eq_some_iff {level : CacheLevel} {key : CacheKey} {visits : List (CacheVisit ρ)}
    {e : Expiring ρ ℚ} (hwipes : ∀ v ∈ visits, v.op.wipes = true → v.op.writes f level = none)
    (hevicted : ∀ v ∈ visits, ∀ k r, v.op.writes f level = some (k, r) → k ∉ v.evicted level) :
    ideal f level visits key = some e ↔
      ∃ s r, LastSet f level key visits s r ∧ 0 < s.before.ttl ∧ e = ⟨r, s.now + s.before.ttl⟩ := by
  induction visits using List.reverseRecOn with
  | nil =>
    constructor
    · exact fun h => nomatch h
    · rintro ⟨s, r, ⟨earlier, later, heq, -⟩, -⟩
      exact absurd heq (by simp)
  | append_singleton visits v ih =>
    have hv : v ∈ visits ++ [v] := List.mem_append_right _ List.mem_cons_self
    have hih := ih (fun w hw => hwipes w (List.mem_append_left _ hw))
      (fun w hw => hevicted w (List.mem_append_left _ hw))
    rw [ideal_concat]
    simp only [lastSet_concat]
    unfold idealStep
    by_cases hwipe : v.op.wipes = true
    · -- a flush sets nothing and ends everything
      have hnone : v.sets f level key = none := by rw [CacheVisit.sets, hwipes v hv hwipe]
      have hends : v.ends level key := .inl hwipe
      rw [if_pos hwipe]
      simp [ExpiringMap.empty, hnone, hends]
    · rw [if_neg hwipe]
      cases hwrites : v.op.writes f level with
      | none =>
        have hnone : v.sets f level key = none := by rw [CacheVisit.sets, hwrites]
        dsimp only
        by_cases hout : key ∈ v.evicted level
        · have hends : v.ends level key := .inr hout
          simp [ExpiringMap.drop, hout, hnone, hends]
        · have hkeeps : ¬ v.ends level key := fun h => h.elim hwipe hout
          rw [ExpiringMap.drop, if_neg hout, hih]
          simp [hnone, hkeeps]
      | some w =>
        obtain ⟨k, r⟩ := w
        dsimp only
        by_cases hkey : k = key
        · -- the call set this very key
          subst hkey
          have hsets : v.sets f level k = some r := by rw [CacheVisit.sets, hwrites]; simp
          by_cases henabled : 0 < v.before.ttl
          · rw [if_pos henabled, ExpiringMap.write, if_pos rfl]
            constructor
            · intro h
              cases h
              exact ⟨v, r, .inl ⟨rfl, hsets⟩, henabled, rfl⟩
            · rintro ⟨s, r', ⟨rfl, hr⟩ | ⟨-, hnone, -⟩, -, rfl⟩
              · rw [hsets] at hr
                cases hr
                rfl
              · rw [hsets] at hnone
                cases hnone
          · rw [if_neg henabled, ExpiringMap.drop, if_pos List.mem_cons_self]
            constructor
            · intro h
              cases h
            · rintro ⟨s, r', ⟨rfl, -⟩ | ⟨-, hnone, -⟩, hpos, -⟩
              · exact absurd hpos henabled
              · rw [hsets] at hnone
                cases hnone
        · have hnone : v.sets f level key = none := by rw [CacheVisit.sets, hwrites]; simp [hkey]
          have hne : ¬ key = k := fun h => hkey h.symm
          by_cases hout : key ∈ v.evicted level
          · have hends : v.ends level key := .inr hout
            split <;> simp [ExpiringMap.write, ExpiringMap.drop, hout, hne, hnone, hends]
          · have hkeeps : ¬ v.ends level key := fun h => h.elim hwipe hout
            have hsame : (if 0 < v.before.ttl then
                (((ideal f level visits).drop (v.evicted level)).write k ⟨r, v.now + v.before.ttl⟩)
                else (ideal f level visits).drop (k :: v.evicted level)) key
                  = ideal f level visits key := by
              split <;> simp [ExpiringMap.write, ExpiringMap.drop, hout, hne]
            rw [hsame, hih]
            simp [hnone, hkeeps]

/-! ## The law -/

/-- **What callers rely on over a run.** -/
structure CacheLaw (f : CacheFolding) (c : QueryCache ρ) (ops : List (ℚ × CacheOp ρ)) : Prop where
  /-- A lookup answers with the response of the last set of its key, where that set was made while the
  cache was enabled and has not expired. -/
  answers : ∀ before v after, c.trace f ops = before ++ v :: after → ∀ level key,
    v.op.reads f level = some key → ∀ r, v.answer = some r ↔
      ∃ s, LastSet f level key before s r ∧ 0 < s.before.ttl ∧ v.now ≤ s.now + s.before.ttl
  /-- The stores stay within their bound. -/
  bounded : ∀ v ∈ c.trace f ops, ∀ level, (size (v.after.storeAt level) : ℤ) ≤ v.after.maxSize
  /-- Keys are evicted for size only: to set a key that was not there, in a store that is then full. -/
  evictions : ∀ v ∈ c.trace f ops, ∀ level, v.evicted level ≠ [] →
    (∃ key r, v.op.writes f level = some (key, r) ∧ key ∉ v.before.storeAt level) ∧
      (size (v.after.storeAt level) : ℤ) = v.after.maxSize
  /-- No call raises. -/
  returns : ∀ v ∈ c.trace f ops, v.returned = true

/-- **The cache after some calls refines the abstract maps of those calls.** -/
structure Refines (f : CacheFolding) (visits : List (CacheVisit ρ)) (now : ℚ) (c : QueryCache ρ) : Prop where
  /-- Each store tracks its map. -/
  tracks : ∀ level, Tracks (ideal f level visits) now (c.storeAt level)
  /-- Nothing is stored while the cache is disabled. -/
  disabled : c.ttl ≤ 0 → ∀ level, c.storeAt level = ∅
  /-- The stores are within their bound. -/
  bounded : ∀ level, (size (c.storeAt level) : ℤ) ≤ c.maxSize
  /-- The limits in force leave room. -/
  limits : LimitsOk c.ttl c.maxSize

/-- What one call shows of the cache, after the calls before it. -/
structure StepOk (f : CacheFolding) (visits : List (CacheVisit ρ)) (v : CacheVisit ρ) : Prop where
  /-- A lookup answers as the map reads. -/
  answer : ∀ level key, v.op.reads f level = some key → v.answer = (ideal f level visits).read v.now key
  /-- Flushes set nothing. -/
  wipes : ∀ level, v.op.wipes = true → v.op.writes f level = none
  /-- A call does not evict what it sets. -/
  kept : ∀ level key r, v.op.writes f level = some (key, r) → key ∉ v.evicted level
  /-- Evictions are for size. -/
  evictions : ∀ level, v.evicted level ≠ [] →
    (∃ key r, v.op.writes f level = some (key, r) ∧ key ∉ v.before.storeAt level) ∧
      (size (v.after.storeAt level) : ℤ) = v.after.maxSize
  /-- The call returns. -/
  returned : v.returned = true

theorem idealStep_of_not_wipes {level : CacheLevel} {m : ExpiringMap CacheKey ρ ℚ} {v : CacheVisit ρ}
    (hop : v.op.wipes = false) (hevicted : v.evicted level = []) (hwrites : v.op.writes f level = none) :
    idealStep f level m v = m := by
  unfold idealStep
  rw [if_neg (by rw [hop]; exact Bool.false_ne_true), hwrites, hevicted]
  exact ExpiringMap.drop_nil m

/-- A map that tracks the empty dictionary still does so without a key. -/
theorem Tracks.drop_empty {m : ExpiringMap CacheKey ρ ℚ} {now : ℚ} (h : Tracks m now ∅)
    (ks : List CacheKey) : Tracks (m.drop ks) now ∅ := by
  refine ⟨fun k e hstored => by simp at hstored, fun k e hnone hm => ?_⟩
  unfold ExpiringMap.drop at hm
  split at hm
  · cases hm
  · exact h.expired k e hnone hm

/-- A call that does to a store what `LevelStep` says keeps the store tracking its map. -/
theorem tracks_of_levelStep {level : CacheLevel} {visits : List (CacheVisit ρ)} {v : CacheVisit ρ}
    (hstep : LevelStep f v level) (h : Tracks (ideal f level visits) v.now (v.before.storeAt level))
    (hdisabled : v.before.ttl ≤ 0 → v.before.storeAt level = ∅) :
    Tracks (ideal f level (visits ++ [v])) v.now (v.after.storeAt level) := by
  rw [ideal_concat]
  cases hstep with
  | wiped hop _ _ hafter =>
    rw [idealStep, if_pos hop, hafter]
    exact Tracks.empty
  | wrote key r hop _ hwrites henabled hwrite _ =>
    have hne : ¬ v.op.wipes = true := by rw [hop]; exact Bool.false_ne_true
    rw [idealStep, if_neg hne, hwrites]
    dsimp only
    rw [if_pos henabled]
    exact h.writeEntry hwrite
  | looked key hop hreads hwrites _ hevicted hread _ =>
    rw [idealStep_of_not_wipes hop hevicted hwrites]
    have hsnd := h.readEntry_snd key
    rw [hread] at hsnd
    exact hsnd
  | idle hop hevicted hafter _ hwrites _ =>
    rw [hafter]
    cases hw : v.op.writes f level with
    | none =>
      rw [idealStep_of_not_wipes hop hevicted hw]
      exact h
    | some w =>
      -- a set while the cache is disabled stores nothing, and nothing is stored
      have hoff := hwrites (by rw [hw]; exact Option.some_ne_none w)
      have hne : ¬ v.op.wipes = true := by rw [hop]; exact Bool.false_ne_true
      rw [hdisabled hoff] at h ⊢
      rw [idealStep, if_neg hne, hw]
      dsimp only
      rw [if_neg (not_lt.mpr hoff)]
      exact h.drop_empty _

/-- The bound survives what a call does to a store. -/
theorem size_le_of_levelStep {level : CacheLevel} {v : CacheVisit ρ} (hstep : LevelStep f v level)
    (hsize : (size (v.before.storeAt level) : ℤ) ≤ v.before.maxSize) (hmax : 0 ≤ v.after.maxSize) :
    (size (v.after.storeAt level) : ℤ) ≤ v.after.maxSize := by
  cases hstep with
  | wiped _ _ _ hafter =>
    rw [hafter, size_empty]
    exact hmax
  | wrote key r _ _ _ _ hwrite hlimits =>
    rw [hlimits.2]
    exact size_writeEntry_le hwrite hsize
  | looked key _ _ _ _ _ hread hlimits =>
    have hle := size_readEntry_le v.now key (v.before.storeAt level)
    rw [hread] at hle
    rw [hlimits.2]
    exact le_trans (Int.ofNat_le.mpr hle) hsize
  | idle _ _ hafter _ _ hlimits =>
    rw [hafter, hlimits.2]
    exact hsize

/-- Nothing comes to be stored while the cache is disabled. -/
theorem disabled_of_levelStep {level : CacheLevel} {v : CacheVisit ρ} (hstep : LevelStep f v level)
    (hdisabled : v.before.ttl ≤ 0 → v.before.storeAt level = ∅) (hoff : v.after.ttl ≤ 0) :
    v.after.storeAt level = ∅ := by
  cases hstep with
  | wiped _ _ _ hafter => exact hafter
  | wrote _ _ _ _ _ henabled _ hlimits => exact absurd (hlimits.1 ▸ hoff) (not_le.mpr henabled)
  | looked _ _ _ _ henabled _ _ hlimits => exact absurd (hlimits.1 ▸ hoff) (not_le.mpr henabled)
  | idle _ _ hafter _ _ hlimits =>
    rw [hafter]
    exact hdisabled (hlimits.1 ▸ hoff)

/-- **The step lemma of the refinement**: an admissible call at a later time keeps the cache refining its
maps, and shows what they say. -/
theorem Refines.visit {visits : List (CacheVisit ρ)} {t now : ℚ} {c : QueryCache ρ}
    (h : Refines f visits t c) (hle : t ≤ now) (op : CacheOp ρ) (hop : op.Admissible) :
    Refines f (visits ++ [c.visit f now op]) now (c.visit f now op).after ∧
      StepOk f visits (c.visit f now op) := by
  have hstep : ∀ level, LevelStep f (c.visit f now op) level := fun level =>
    (QueryCache.visit_levelStep h.limits now op level).1
  have hlimits := QueryCache.visit_limitsOk (f := f) h.limits now op hop
  have htracks : ∀ level, Tracks (ideal f level visits) (c.visit f now op).now
      ((c.visit f now op).before.storeAt level) := by
    intro level
    rw [QueryCache.visit_now, QueryCache.visit_before]
    exact (h.tracks level).later hle
  have hdisabled : (c.visit f now op).before.ttl ≤ 0 → ∀ level,
      (c.visit f now op).before.storeAt level = ∅ := by
    rw [QueryCache.visit_before]
    exact h.disabled
  refine ⟨⟨fun level => ?_, fun hoff level => ?_, fun level => ?_, hlimits⟩, ⟨?_, ?_, ?_, ?_, ?_⟩⟩
  · have := tracks_of_levelStep (hstep level) (htracks level) (fun hoff => hdisabled hoff level)
    rwa [QueryCache.visit_now] at this
  · exact disabled_of_levelStep (hstep level) (fun hoff => hdisabled hoff level) hoff
  · refine size_le_of_levelStep (hstep level) ?_ hlimits.1
    rw [QueryCache.visit_before]
    exact h.bounded level
  · intro level key hreads
    cases hstep level with
    | wiped _ hnone _ _ => exact nomatch hnone.symm.trans hreads
    | wrote _ _ _ hnone _ _ _ _ => exact nomatch hnone.symm.trans hreads
    | looked key' _ hreads' _ _ _ hread _ =>
      obtain rfl := Option.some_inj.mp (hreads'.symm.trans hreads)
      rw [← (htracks level).readEntry_fst key', hread]
    | idle _ _ _ hoff _ _ =>
      obtain ⟨httl, hanswer⟩ := hoff key hreads
      have hread := (htracks level).readEntry_fst key
      rw [hdisabled httl level] at hread
      rw [hanswer, ← hread]
      simp [readEntry]
  · intro level hwipes
    cases hstep level with
    | wiped => cases op <;> first | rfl | cases hwipes
    | wrote _ _ hno _ _ _ _ _ => exact nomatch hno.symm.trans hwipes
    | looked _ hno _ _ _ _ _ _ => exact nomatch hno.symm.trans hwipes
    | idle hno _ _ _ _ _ => exact nomatch hno.symm.trans hwipes
  · intro level key r hwrites
    cases hstep level with
    | wiped _ _ hevicted _ => rw [hevicted]; exact List.not_mem_nil
    | wrote key' r' _ _ hwrites' _ hwrite _ =>
      obtain ⟨rfl, -⟩ := Prod.mk.inj (Option.some_inj.mp (hwrites'.symm.trans hwrites))
      exact notMem_dropped hwrite
    | looked _ _ _ _ _ hevicted _ _ => rw [hevicted]; exact List.not_mem_nil
    | idle _ hevicted _ _ _ _ => rw [hevicted]; exact List.not_mem_nil
  · intro level hne
    cases hstep level with
    | wiped _ _ hevicted _ => exact absurd hevicted hne
    | wrote key r _ _ hwrites _ hwrite hlim =>
      obtain ⟨hnew, hfull⟩ := dropped_of_full hwrite hne
      exact ⟨⟨key, r, hwrites, hnew⟩, hlim.2 ▸ hfull⟩
    | looked _ _ _ _ _ hevicted _ _ => exact absurd hevicted hne
    | idle _ hevicted _ _ _ _ => exact absurd hevicted hne
  · exact (QueryCache.visit_levelStep h.limits now op .question).2

/-- **The run lemma**: every call of a run shows what the maps of the calls before it say, and leaves the
stores within their bound. -/
theorem Refines.trace {visits : List (CacheVisit ρ)} {t : ℚ} {c : QueryCache ρ}
    {ops : List (ℚ × CacheOp ρ)} (h : Refines f visits t c) (hfrom : ∀ o ∈ ops, t ≤ o.1)
    (hsorted : ops.Pairwise fun o o' => o.1 ≤ o'.1) (hops : ∀ o ∈ ops, o.2.Admissible)
    {before after : List (CacheVisit ρ)} {v : CacheVisit ρ} (htrace : c.trace f ops = before ++ v :: after) :
    StepOk f (visits ++ before) v ∧ ∀ level, (size (v.after.storeAt level) : ℤ) ≤ v.after.maxSize := by
  induction ops generalizing visits t c before with
  | nil => exact absurd htrace (by simp [QueryCache.trace])
  | cons o rest ih =>
    obtain ⟨now, op⟩ := o
    obtain ⟨hfirst, hrest⟩ := List.pairwise_cons.mp hsorted
    obtain ⟨hnext, hshown⟩ := h.visit (hfrom _ List.mem_cons_self) op (hops _ List.mem_cons_self)
    rw [QueryCache.trace] at htrace
    cases before with
    | nil =>
      obtain ⟨rfl, -⟩ := List.cons.inj htrace
      rw [List.append_nil]
      exact ⟨hshown, hnext.bounded⟩
    | cons w before =>
      obtain ⟨rfl, htail⟩ := List.cons.inj htrace
      have := ih hnext (fun o ho => hfirst o ho) hrest (fun o ho => hops o (List.mem_cons_of_mem _ ho)) htail
      rwa [List.append_assoc] at this

/-- A new cache refines the empty maps. -/
theorem Refines.new {ttlSeconds maxSize : ℤ} (hok : LimitsOk ttlSeconds maxSize) (t : ℚ) :
    Refines f [] t (QueryCache.new ttlSeconds maxSize : QueryCache ρ) := by
  have hempty : ∀ level, (QueryCache.new ttlSeconds maxSize : QueryCache ρ).storeAt level = ∅ := by
    intro level
    cases level <;> rfl
  refine ⟨fun level => ?_, fun _ level => hempty level, fun level => ?_, hok⟩
  · rw [hempty]
    exact Tracks.empty
  · rw [hempty, size_empty]
    exact hok.1

/-- Under limits that leave room, a run of admissible calls at times that do not go back keeps the law. -/
theorem cacheLaw_of_limitsOk {ttlSeconds maxSize : ℤ} (hok : LimitsOk ttlSeconds maxSize)
    {ops : List (ℚ × CacheOp ρ)} (hsorted : ops.Pairwise fun o o' => o.1 ≤ o'.1)
    (hops : ∀ o ∈ ops, o.2.Admissible) : CacheLaw f (QueryCache.new ttlSeconds maxSize) ops := by
  have hrun : ∀ before v after, (QueryCache.new ttlSeconds maxSize).trace f ops = before ++ v :: after →
      StepOk f before v ∧ ∀ level, (size (v.after.storeAt level) : ℤ) ≤ v.after.maxSize := by
    intro before v after htrace
    cases ops with
    | nil => exact absurd htrace (by simp [QueryCache.trace])
    | cons o rest =>
      -- a new cache refines the empty maps at any time, so at the first call's
      have hfrom : ∀ o' ∈ o :: rest, o.1 ≤ o'.1 :=
        List.forall_mem_cons.mpr ⟨le_rfl, (List.pairwise_cons.mp hsorted).1⟩
      exact (Refines.new hok o.1).trace hfrom hsorted hops htrace
  refine ⟨?answers, ?bounded, ?evictions, ?returns⟩
  case answers =>
    intro before v after htrace level key hreads r
    have hearlier : ∀ w ∈ before, ∃ visits, StepOk f visits w := by
      intro w hw
      obtain ⟨b₁, b₂, rfl⟩ := List.append_of_mem hw
      rw [List.append_assoc, List.cons_append] at htrace
      exact ⟨b₁, (hrun b₁ w _ htrace).1⟩
    have hideal := @ideal_eq_some_iff ρ f level key before
    rw [(hrun before v after htrace).1.answer level key hreads, ExpiringMap.read_eq_some_iff]
    constructor
    · rintro ⟨e, he, hlive, rfl⟩
      obtain ⟨s, r, hlast, henabled, rfl⟩ := (hideal
        (fun w hw => (hearlier w hw).choose_spec.wipes level)
        (fun w hw => (hearlier w hw).choose_spec.kept level)).mp he
      exact ⟨s, hlast, henabled, hlive⟩
    · rintro ⟨s, hlast, henabled, hlive⟩
      refine ⟨_, (hideal (fun w hw => (hearlier w hw).choose_spec.wipes level)
        (fun w hw => (hearlier w hw).choose_spec.kept level)).mpr ⟨s, r, hlast, henabled, rfl⟩, hlive, rfl⟩
  case bounded =>
    intro v hv
    obtain ⟨before, after, htrace⟩ := List.append_of_mem hv
    exact (hrun before v after htrace).2
  case evictions =>
    intro v hv
    obtain ⟨before, after, htrace⟩ := List.append_of_mem hv
    exact (hrun before v after htrace).1.evictions
  case returns =>
    intro v hv
    obtain ⟨before, after, htrace⟩ := List.append_of_mem hv
    exact (hrun before v after htrace).1.returned

/-- **The limits under which the cache is a bounded expiring map**: every run of admissible calls keeps
the law exactly for an initial configuration that leaves room for an entry wherever it enables the
cache. -/
theorem cacheLaw_iff (f : CacheFolding) (response : ρ) (ttlSeconds maxSize : ℤ) :
    (∀ ops : List (ℚ × CacheOp ρ), ops.Pairwise (fun o o' => o.1 ≤ o'.1) → (∀ o ∈ ops, o.2.Admissible) →
      CacheLaw f (QueryCache.new ttlSeconds maxSize) ops) ↔ LimitsOk ttlSeconds maxSize := by
  constructor
  · intro h
    have hclear := h [(0, .clear)] (List.pairwise_singleton _ _) (fun o ho => by
      rw [List.mem_singleton.mp ho]
      exact trivial)
    have hset := h [(0, .set "" "" response "" none "")] (List.pairwise_singleton _ _) (fun o ho => by
      rw [List.mem_singleton.mp ho]
      exact trivial)
    refine ⟨?_, fun henabled => ?_⟩
    · exact hclear.bounded _ List.mem_cons_self .question
    · by_contra hroom
      have hreturned := hset.returns _ List.mem_cons_self
      have hfull : writeEntry maxSize (f.questionKey "" "" "" "")
          (⟨response, 0 + ttlSeconds⟩ : Expiring ρ ℚ) ∅ = none :=
        writeEntry_eq_none_iff.mpr ⟨AList.notMem_empty _, by omega⟩
      simp only [QueryCache.visit, QueryCache.set, QueryCache.enabled, QueryCache.new, henabled,
        decide_true, if_true, QueryCache.setQuestion, QueryCache.setIn, QueryCache.storeAt, hfull,
        Option.map_none] at hreturned
      cases hreturned
  · exact fun hok ops hsorted hops => cacheLaw_of_limitsOk hok hsorted hops

/-- `CACHE_MAX_SIZE=0` with the default time to live. -/
def noRoom : QueryCache ℕ := QueryCache.new 300 0

/-- **No room for any entry makes `set` raise**: with the cache enabled and a size of zero, the first
`set` ends in the `KeyError` of `popitem` on an empty store. -/
theorem noRoom_set_not_law :
    ¬ CacheLaw ⟨id, "persian-norm-v1"⟩ noRoom [(0, .set "q" "full" 1 "" (some "SELECT 1") "")] := by
  intro h
  have hreturned := h.returns _ List.mem_cons_self
  revert hreturned
  decide

end LocalSqlAgent
