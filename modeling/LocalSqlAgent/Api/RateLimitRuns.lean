import LocalSqlAgent.Api.RateLimit

/-! # What the rate limiter promises over a run

A run is a sequence of calls, each a bucket key with the reading of the clock the call took; readings
are arbitrary. `trace` is what the calls saw and answered. For one key, as long as its bucket is not
dropped for another's (`Kept`), `TokenBucketLaw` says what the limiter is for, and
`tokenBucketLaw_iff_noOverdraft` when it holds: exactly where the limits leave room for a token and the
clock never goes back further than the tokens left pay for. -/

namespace LocalSqlAgent

open OrderedDict TokenBucket

/-- One call as it happened. -/
structure Visit where
  /-- The bucket key. -/
  key : String
  /-- The reading of the clock. -/
  now : ℚ
  /-- The buckets before. -/
  before : Buckets
  /-- The answer. -/
  result : Except ConsumeError (Bool × ℚ)
  /-- The buckets after. -/
  after : Buckets

namespace Visit

/-- The call was allowed. -/
def allowed (v : Visit) : Bool :=
  match v.result with
  | .ok (ok, _) => ok
  | .error _ => false

end Visit

namespace RateLimitMiddleware

/-- The calls of a run as they happened. -/
def trace (m : RateLimitMiddleware) : Buckets → List (String × ℚ) → List Visit
  | _, [] => []
  | b, (key, now) :: rest =>
    let r := m.consume now key b
    ⟨key, now, b, r.1, r.2⟩ :: m.trace r.2 rest

/-- The buckets a run leaves. -/
def bucketsAfter (m : RateLimitMiddleware) : Buckets → List (String × ℚ) → Buckets
  | b, [] => b
  | b, (key, now) :: rest => m.bucketsAfter (m.consume now key b).2 rest

/-- The number of calls on `k` that were allowed at readings within `[t₁, t₂]`. -/
def allowedOn (k : String) (t₁ t₂ : ℚ) (visits : List Visit) : ℕ :=
  visits.countP fun v => decide (v.key = k) && v.allowed && decide (t₁ ≤ v.now ∧ v.now ≤ t₂)

/-- The key's bucket is never dropped in the run. -/
def Kept (m : RateLimitMiddleware) (k : String) (b : Buckets) (calls : List (String × ℚ)) : Prop :=
  ∀ v ∈ m.trace b calls, k ∈ v.before → k ∈ v.after

/-- No call on the key reads a clock that went back further than the bucket's tokens pay for. -/
def NoOverdraft (m : RateLimitMiddleware) (k : String) (b : Buckets) (calls : List (String × ℚ)) : Prop :=
  ∀ v ∈ m.trace b calls, v.key = k → ∀ bucket, v.before.lookup k = some bucket →
    0 ≤ bucket.tokens + (v.now - bucket.lastRefill) * (m.limitsOf k).refillRate

/-- The limits under which one key's bucket works: a bucket may be tracked, it holds a whole token, and
it is refilled. -/
def Usable (m : RateLimitMiddleware) (k : String) : Prop :=
  1 ≤ m.maxTrackedIps ∧ 1 ≤ (m.limitsOf k).capacity ∧ 0 < (m.limitsOf k).refillRate

/-- **What the limiter promises one key over a run.** -/
structure TokenBucketLaw (m : RateLimitMiddleware) (k : String) (calls : List (String × ℚ)) : Prop where
  /-- Calls allowed in a window are within the allowance. -/
  window : ∀ t₁ t₂ : ℚ, t₁ ≤ t₂ →
    (allowedOn k t₁ t₂ (m.trace ∅ calls) : ℚ)
      ≤ (m.limitsOf k).capacity + (t₂ - t₁) * (m.limitsOf k).refillRate
  /-- A refused caller that waits the time it was told, others calling meanwhile, is then allowed. -/
  retry : ∀ v ∈ m.trace ∅ calls, v.key = k → ∀ retryAfter, v.result = .ok (false, retryAfter) →
    ∀ (others : List (String × ℚ)) (later : ℚ), (∀ c ∈ others, c.1 ≠ k) → m.Kept k v.after others →
      v.now + retryAfter ≤ later →
      (m.consume later k (m.bucketsAfter v.after others)).1 = .ok (true, 0)
  /-- The tokens stay between zero and the capacity. -/
  tokens : ∀ v ∈ m.trace ∅ calls, ∀ bucket, v.after.lookup k = some bucket →
    0 ≤ bucket.tokens ∧ bucket.tokens ≤ (m.limitsOf k).capacity
  /-- The map stays within its bound. -/
  tracked : ∀ v ∈ m.trace ∅ calls, (size v.after : ℤ) ≤ m.maxTrackedIps
  /-- No call on the key raises. -/
  returns : ∀ v ∈ m.trace ∅ calls, v.key = k → ∃ answer, v.result = .ok answer

variable {m : RateLimitMiddleware} {k : String} {b : Buckets} {calls : List (String × ℚ)}

/-! ## The calls of a trace -/

theorem mem_trace_consume {v : Visit} (hv : v ∈ m.trace b calls) :
    v.result = (m.consume v.now v.key v.before).1 ∧ v.after = (m.consume v.now v.key v.before).2 := by
  induction calls generalizing b with
  | nil => cases hv
  | cons c rest ih =>
    obtain rfl | hv := List.mem_cons.mp hv
    · exact ⟨rfl, rfl⟩
    · exact ih hv

/-- **The step rule for a trace**: what holds before the run and is preserved by its calls holds around
every call. -/
theorem trace_invariant {I : Buckets → Prop} (hinit : I b)
    (hstep : ∀ v ∈ m.trace b calls, I v.before → I v.after) :
    ∀ v ∈ m.trace b calls, I v.before ∧ I v.after := by
  induction calls generalizing b with
  | nil => exact fun v hv => nomatch hv
  | cons c rest ih =>
    intro v hv
    have hhead := hstep _ List.mem_cons_self hinit
    obtain rfl | hv := List.mem_cons.mp hv
    · exact ⟨hinit, hhead⟩
    · exact ih hhead (fun v hv => hstep v (List.mem_cons_of_mem _ hv)) v hv

theorem kept_cons {c : String × ℚ} {rest : List (String × ℚ)} :
    m.Kept k b (c :: rest) ↔
      (k ∈ b → k ∈ (m.consume c.2 c.1 b).2) ∧ m.Kept k (m.consume c.2 c.1 b).2 rest :=
  List.forall_mem_cons

/-- A kept key's bucket is as it was after calls on other keys. -/
theorem lookup_of_kept {c : String × ℚ} (hne : c.1 ≠ k) (hkept : k ∈ b → k ∈ (m.consume c.2 c.1 b).2) :
    (m.consume c.2 c.1 b).2.lookup k = b.lookup k := by
  obtain heq | ⟨hmem, hgone⟩ := @consume_other m c.2 c.1 k b hne.symm
  · exact heq
  · exact absurd (hkept hmem) hgone

theorem lookup_bucketsAfter (hothers : ∀ c ∈ calls, c.1 ≠ k) (hkept : m.Kept k b calls) :
    (m.bucketsAfter b calls).lookup k = b.lookup k := by
  induction calls generalizing b with
  | nil => rfl
  | cons c rest ih =>
    obtain ⟨hhead, htail⟩ := kept_cons.mp hkept
    have hrest := ih (fun c hc => hothers c (List.mem_cons_of_mem _ hc)) htail
    exact hrest.trans (lookup_of_kept (hothers c List.mem_cons_self) hhead)

/-! ## One key's calls are draws from one bucket -/

/-- An answered draw allows what the draw allows. -/
theorem allowed_answerOf (v : Visit) (rate : ℚ) (d : Bool × TokenBucket ℚ) (h : v.result = answerOf rate d) :
    v.allowed = d.1 := by
  unfold Visit.allowed
  rw [h]
  unfold answerOf
  cases d.1 with
  | true => rfl
  | false =>
    by_cases hrate : rate = 0
    · simp [hrate]
    · simp [hrate]

/-- **The calls on a kept key are the draws of its readings**, from the bucket it has. -/
theorem allowedOn_trace (hmax : 1 ≤ m.maxTrackedIps) (hkept : m.Kept k b calls) (t₁ t₂ : ℚ) :
    allowedOn k t₁ t₂ (m.trace b calls)
      = allowedWithin t₁ t₂ (drawAll (m.limitsOf k).capacity (m.limitsOf k).refillRate (b.lookup k)
          ((calls.filter fun c => c.1 = k).map Prod.snd)) := by
  induction calls generalizing b with
  | nil => rfl
  | cons c rest ih =>
    obtain ⟨hhead, htail⟩ := kept_cons.mp hkept
    have hrest := ih htail
    obtain ⟨key, now⟩ := c
    show allowedOn k t₁ t₂ (_ :: m.trace (m.consume now key b).2 rest) = _
    unfold allowedOn at hrest ⊢
    rw [List.countP_cons, hrest]
    by_cases hkey : key = k
    · subst hkey
      obtain ⟨hanswer, hlookup⟩ := m.consume_own hmax now key b
      have hallowed : Visit.allowed ⟨key, now, b, (m.consume now key b).1, (m.consume now key b).2⟩
          = (m.drawOf now key b).1 := allowed_answerOf _ _ _ hanswer
      rw [hlookup, hallowed]
      simp only [decide_true, List.filter_cons_of_pos, List.map_cons]
      rw [drawAll, allowedWithin_cons]
      simp only [Bool.true_and, Bool.and_eq_true, decide_eq_true_eq]
      rfl
    · rw [lookup_of_kept hkey hhead]
      simp [hkey]

/-! ## Tokens -/

/-- **The step rule for one bucket**: what every draw on a kept key leaves true of its bucket is true
of it after every call. -/
theorem bucket_invariant {P : TokenBucket ℚ → Prop} (hmax : 1 ≤ m.maxTrackedIps)
    (hkept : m.Kept k ∅ calls)
    (hdraw : ∀ v ∈ m.trace ∅ calls, v.key = k →
      (∀ bucket, v.before.lookup k = some bucket → P bucket) → P (m.drawOf v.now k v.before).2) :
    ∀ v ∈ m.trace ∅ calls, ∀ bucket, v.after.lookup k = some bucket → P bucket := by
  intro v hv
  have hinit : ∀ bucket, AList.lookup k (∅ : Buckets) = some bucket → P bucket := fun bucket h => by
    simp at h
  refine (trace_invariant (I := fun b => ∀ bucket, b.lookup k = some bucket → P bucket) hinit ?_ v hv).2
  intro v hv hbefore bucket hbucket
  rw [(mem_trace_consume hv).2] at hbucket
  by_cases hkey : v.key = k
  · rw [hkey, (m.consume_own hmax v.now k v.before).2] at hbucket
    cases hbucket
    exact hdraw v hv hkey hbefore
  · have hkeptv := hkept v hv
    rw [(mem_trace_consume hv).2] at hkeptv
    have hsame : (m.consume v.now v.key v.before).2.lookup k = v.before.lookup k :=
      lookup_of_kept (c := (v.key, v.now)) hkey hkeptv
    exact hbefore bucket (hsame ▸ hbucket)

/-- A key's bucket never holds more than its capacity. -/
theorem tokens_le_capacity (hmax : 1 ≤ m.maxTrackedIps) (hkept : m.Kept k ∅ calls) :
    ∀ v ∈ m.trace ∅ calls, ∀ bucket, v.after.lookup k = some bucket →
      bucket.tokens ≤ (m.limitsOf k).capacity :=
  bucket_invariant hmax hkept fun _ _ _ _ => draw_tokens_le _ _ _ _

/-- A call on a key leaves its tokens at or above zero exactly where its reading does not overdraw the
bucket it found; a fresh bucket is never overdrawn. -/
theorem drawOf_tokens_nonneg_iff (hcapacity : 0 ≤ (m.limitsOf k).capacity) (now : ℚ) (b : Buckets) :
    0 ≤ (m.drawOf now k b).2.tokens ↔ ∀ bucket, b.lookup k = some bucket →
      0 ≤ bucket.tokens + (now - bucket.lastRefill) * (m.limitsOf k).refillRate := by
  unfold drawOf
  dsimp only
  rw [draw_tokens_nonneg_iff hcapacity]
  cases b.lookup k with
  | none => simpa [orFull] using hcapacity
  | some bucket => simp [orFull]

/-- The bucket of a key never falls below zero where the clock does not overdraw it. -/
theorem tokens_nonneg (hmax : 1 ≤ m.maxTrackedIps) (hcapacity : 0 ≤ (m.limitsOf k).capacity)
    (hkept : m.Kept k ∅ calls) (hclock : m.NoOverdraft k ∅ calls) :
    ∀ v ∈ m.trace ∅ calls, ∀ bucket, v.after.lookup k = some bucket → 0 ≤ bucket.tokens :=
  bucket_invariant hmax hkept fun v hv hkey _ =>
    (drawOf_tokens_nonneg_iff hcapacity _ _).mpr (hclock v hv hkey)

/-- **A clock that never goes back overdraws no bucket.** -/
theorem noOverdraft_of_sorted (hmax : 1 ≤ m.maxTrackedIps) (hcapacity : 0 ≤ (m.limitsOf k).capacity)
    (hrate : 0 ≤ (m.limitsOf k).refillRate) (hkept : m.Kept k b calls)
    (hfound : ∀ bucket, b.lookup k = some bucket →
      0 ≤ bucket.tokens ∧ ∀ c ∈ calls, bucket.lastRefill ≤ c.2)
    (hsorted : calls.Pairwise fun c c' => c.2 ≤ c'.2) : m.NoOverdraft k b calls := by
  induction calls generalizing b with
  | nil => exact fun v hv => nomatch hv
  | cons c rest ih =>
    obtain ⟨hhead, htail⟩ := kept_cons.mp hkept
    obtain ⟨hfirst, hsorted⟩ := List.pairwise_cons.mp hsorted
    have hpaid : ∀ bucket, b.lookup k = some bucket →
        0 ≤ bucket.tokens + (c.2 - bucket.lastRefill) * (m.limitsOf k).refillRate := by
      intro bucket hbucket
      obtain ⟨htokens, hlast⟩ := hfound bucket hbucket
      exact add_nonneg htokens (mul_nonneg (sub_nonneg.mpr (hlast c List.mem_cons_self)) hrate)
    refine List.forall_mem_cons.mpr ⟨fun _ => hpaid, ih htail ?_ hsorted⟩
    intro bucket hbucket
    by_cases hkey : c.1 = k
    · obtain ⟨key, now⟩ := c
      subst hkey
      rw [(m.consume_own hmax now key b).2] at hbucket
      cases hbucket
      refine ⟨(drawOf_tokens_nonneg_iff hcapacity now b).mpr hpaid, fun c hc => ?_⟩
      rw [drawOf, draw_lastRefill]
      exact hfirst c hc
    · rw [lookup_of_kept hkey hhead] at hbucket
      obtain ⟨htokens, hlast⟩ := hfound bucket hbucket
      exact ⟨htokens, fun c hc => hlast c (List.mem_cons_of_mem _ hc)⟩

/-! ## The law -/

/-- A call is allowed when its draw is. -/
theorem answerOf_allowed {rate : ℚ} {d : Bool × TokenBucket ℚ} (h : d.1 = true) :
    answerOf rate d = .ok (true, 0) := by
  unfold answerOf
  rw [h, if_pos rfl]

/-- A call that answers "refused" was a refused draw, and says when the missing tokens are there. -/
theorem answerOf_refused {rate : ℚ} {d : Bool × TokenBucket ℚ} {retryAfter : ℚ}
    (h : answerOf rate d = .ok (false, retryAfter)) :
    d.1 = false ∧ rate ≠ 0 ∧ retryAfter = (1 - d.2.tokens) / rate := by
  unfold answerOf at h
  cases hd : d.1 with
  | true =>
    rw [hd, if_pos rfl] at h
    cases h
  | false =>
    rw [hd, if_neg Bool.false_ne_true] at h
    by_cases hrate : rate = 0
    · rw [if_pos hrate] at h
      cases h
    · rw [if_neg hrate] at h
      cases h
      exact ⟨rfl, hrate, rfl⟩

/-- Under usable limits and a clock that does not overdraw the bucket, the law holds. -/
theorem law_of_noOverdraft (husable : m.Usable k) (hkept : m.Kept k ∅ calls)
    (hclock : m.NoOverdraft k ∅ calls) : m.TokenBucketLaw k calls := by
  obtain ⟨hmax, hcapacity, hrate⟩ := husable
  have hcap0 : 0 ≤ (m.limitsOf k).capacity := le_trans zero_le_one hcapacity
  refine ⟨?window, ?retry, ?tokens, ?tracked, ?returns⟩
  case window =>
    intro t₁ t₂ ht
    rw [allowedOn_trace hmax hkept]
    exact allowedWithin_le hcap0 hrate.le ht _ _
  case retry =>
    intro v hv hkey retryAfter hresult others later hothers hkeptOthers hlater
    obtain ⟨hanswer, hlookup⟩ := m.consume_own hmax v.now k v.before
    rw [(mem_trace_consume hv).1, hkey, hanswer] at hresult
    obtain ⟨-, -, rfl⟩ := answerOf_refused hresult
    rw [(m.consume_own hmax later k _).1]
    refine answerOf_allowed ?_
    -- the others left the bucket as the refused call did
    have hbucket : (m.bucketsAfter v.after others).lookup k = some (m.drawOf v.now k v.before).2 := by
      rw [lookup_bucketsAfter hothers hkeptOthers, (mem_trace_consume hv).2, hkey]
      exact hlookup
    have hlast : (m.drawOf v.now k v.before).2.lastRefill = v.now := draw_lastRefill _ _ _ _
    have hwait : (m.drawOf v.now k v.before).2.lastRefill
        + (1 - (m.drawOf v.now k v.before).2.tokens) / (m.limitsOf k).refillRate ≤ later := by
      rw [hlast]
      exact hlater
    rw [drawOf, hbucket]
    exact draw_allowed_after_wait hcapacity hrate hwait
  case tokens =>
    intro v hv bucket hbucket
    exact ⟨tokens_nonneg hmax hcap0 hkept hclock v hv bucket hbucket,
      tokens_le_capacity hmax hkept v hv bucket hbucket⟩
  case tracked =>
    have hinit : (size (∅ : Buckets) : ℤ) ≤ m.maxTrackedIps := by
      rw [size_empty]
      omega
    intro v hv
    refine (trace_invariant (m := m) (I := fun b => (size b : ℤ) ≤ m.maxTrackedIps) hinit ?_ v hv).2
    intro v hv hbefore
    rw [(mem_trace_consume hv).2]
    exact consume_size_le hbefore
  case returns =>
    intro v hv hkey
    rw [(mem_trace_consume hv).1, hkey, (m.consume_own hmax v.now k v.before).1]
    unfold answerOf
    split
    · exact ⟨_, rfl⟩
    · rw [if_neg hrate.ne']
      exact ⟨_, rfl⟩

/-- Where the law holds, the clock overdrew nothing. -/
theorem noOverdraft_of_law (husable : m.Usable k) (h : m.TokenBucketLaw k calls) :
    m.NoOverdraft k ∅ calls := by
  obtain ⟨hmax, hcapacity, -⟩ := husable
  intro v hv hkey
  have hlookup := (m.consume_own hmax v.now k v.before).2
  have hafter : v.after.lookup k = some (m.drawOf v.now k v.before).2 := by
    rw [(mem_trace_consume hv).2, hkey]
    exact hlookup
  exact (drawOf_tokens_nonneg_iff (le_trans zero_le_one hcapacity) _ _).mp (h.tokens v hv _ hafter).1

/-! ## Which limits are usable -/

/-- A run of calls on the key alone, all at reading zero. -/
def burstAtZero (k : String) (n : ℕ) : List (String × ℚ) := List.replicate n (k, 0)

theorem mem_trace_call {v : Visit} (hv : v ∈ m.trace b calls) : (v.key, v.now) ∈ calls := by
  induction calls generalizing b with
  | nil => cases hv
  | cons c rest ih =>
    obtain rfl | hv := List.mem_cons.mp hv
    · exact List.mem_cons_self
    · exact List.mem_cons_of_mem _ (ih hv)

theorem length_trace : (m.trace b calls).length = calls.length := by
  induction calls generalizing b with
  | nil => rfl
  | cons c rest ih => exact congrArg (· + 1) ih

theorem key_now_of_mem_burst {n : ℕ} {v : Visit} (hv : v ∈ m.trace b (burstAtZero k n)) :
    v.key = k ∧ v.now = 0 := by
  have hcall := List.eq_of_mem_replicate (mem_trace_call hv)
  exact ⟨congrArg Prod.fst hcall, congrArg Prod.snd hcall⟩

/-- Calls on the key itself never drop its bucket. -/
theorem kept_burst (n : ℕ) : m.Kept k b (burstAtZero k n) := by
  intro v hv hbefore
  rw [(mem_trace_consume hv).2, (key_now_of_mem_burst hv).1]
  obtain ⟨heq, -⟩ | ⟨rest, heq, -⟩ := consume_cases m v.now k v.before
  · rw [heq]
    exact hbefore
  · rw [heq]
    exact AList.lookup_isSome.mp (by rw [lookup_put_self]; rfl)

/-- With no bucket tracked yet, the first call finds none to overdraw. -/
theorem noOverdraft_first (c : String × ℚ) : m.NoOverdraft k ∅ [c] := by
  intro v hv _ bucket hbucket
  rw [List.mem_singleton.mp hv] at hbucket
  simp at hbucket

/-- A bound below one fails the first call. -/
theorem one_le_maxTrackedIps_of_law (h : m.TokenBucketLaw k (burstAtZero k 1)) : 1 ≤ m.maxTrackedIps := by
  by_contra hmax
  obtain ⟨answer, hanswer⟩ := h.returns _ List.mem_cons_self rfl
  obtain ⟨heq, -⟩ | ⟨rest, -, ⟨-, hmem | hroom⟩ | ⟨-, oldest, hpop⟩⟩ := consume_cases m 0 k ∅
  · rw [heq] at hanswer
    cases hanswer
  · exact absurd hmem (AList.notMem_empty k)
  · rw [size_empty] at hroom
    omega
  · cases hpop

/-- With room for less than a token, a caller that waited is refused again. -/
theorem one_le_capacity_of_law (hmax : 1 ≤ m.maxTrackedIps) (h : m.TokenBucketLaw k (burstAtZero k 1)) :
    1 ≤ (m.limitsOf k).capacity := by
  by_contra hcapacity
  have hrefused : ∀ now b, (m.drawOf now k b).1 = false := fun now b =>
    draw_refused_of_capacity_lt (not_le.mp hcapacity) _ _ _
  obtain ⟨⟨allowed, retryAfter⟩, hanswer⟩ := h.returns _ List.mem_cons_self rfl
  have hfirst := (m.consume_own hmax 0 k ∅).1
  dsimp only at hanswer
  have hfalse : allowed = false := by
    rw [hfirst, answerOf, hrefused 0 ∅, if_neg Bool.false_ne_true] at hanswer
    split at hanswer
    · cases hanswer
    · cases hanswer
      rfl
  subst hfalse
  have hlater := h.retry _ List.mem_cons_self rfl retryAfter hanswer [] retryAfter (fun c hc => nomatch hc)
    (fun v hv => nomatch hv) (by rw [zero_add])
  rw [(m.consume_own hmax retryAfter k _).1, answerOf, hrefused, if_neg Bool.false_ne_true] at hlater
  split at hlater <;> cases hlater

/-- A rate below zero makes the allowance of a long window less than the call that was allowed. -/
theorem rate_nonneg_of_law (hmax : 1 ≤ m.maxTrackedIps) (hcapacity : 1 ≤ (m.limitsOf k).capacity)
    (h : m.TokenBucketLaw k (burstAtZero k 1)) : 0 ≤ (m.limitsOf k).refillRate := by
  by_contra hrate
  have hneg : (m.limitsOf k).refillRate < 0 := not_le.mp hrate
  have hspan : 0 ≤ (m.limitsOf k).capacity / -(m.limitsOf k).refillRate :=
    div_nonneg (le_trans zero_le_one hcapacity) (neg_nonneg.mpr hneg.le)
  have hallowed : (m.drawOf 0 k ∅).1 = true := by
    refine draw_allowed_iff.mpr ?_
    rw [orFull, AList.lookup_empty, Option.getD_none, refill_full]
    exact hcapacity
  have hbound := h.window 0 ((m.limitsOf k).capacity / -(m.limitsOf k).refillRate) hspan
  have hcount : allowedOn k 0 ((m.limitsOf k).capacity / -(m.limitsOf k).refillRate)
      (m.trace ∅ (burstAtZero k 1)) = 1 := by
    have hone : Visit.allowed ⟨k, 0, ∅, (m.consume 0 k ∅).1, (m.consume 0 k ∅).2⟩ = true := by
      rw [allowed_answerOf _ _ _ (m.consume_own hmax 0 k ∅).1, hallowed]
    simp [allowedOn, burstAtZero, trace, hone, hspan]
  have hspent : (m.limitsOf k).capacity / -(m.limitsOf k).refillRate * (m.limitsOf k).refillRate
      = -(m.limitsOf k).capacity := by
    rw [div_neg, neg_mul, div_mul_cancel₀ _ hneg.ne]
  rw [hcount, sub_zero, hspent, Nat.cast_one] at hbound
  linarith

/-- Without refill, enough calls at once empty the bucket and the next one divides by zero. -/
theorem rate_ne_zero_of_law (hmax : 1 ≤ m.maxTrackedIps)
    (h : m.TokenBucketLaw k (burstAtZero k (⌊(m.limitsOf k).capacity⌋₊ + 1))) :
    (m.limitsOf k).refillRate ≠ 0 := by
  intro hrate
  have hall : ∀ v ∈ m.trace ∅ (burstAtZero k (⌊(m.limitsOf k).capacity⌋₊ + 1)),
      (decide (v.key = k) && v.allowed && decide ((0 : ℚ) ≤ v.now ∧ v.now ≤ 0)) = true := by
    intro v hv
    obtain ⟨hkey, hnow⟩ := key_now_of_mem_burst hv
    obtain ⟨answer, hanswer⟩ := h.returns v hv hkey
    have hdraw : v.result = answerOf (m.limitsOf k).refillRate (m.drawOf v.now k v.before) := by
      rw [(mem_trace_consume hv).1, hkey]
      exact (m.consume_own hmax v.now k v.before).1
    have hallowed : v.allowed = true := by
      rw [allowed_answerOf v _ _ hdraw]
      by_contra hrefused
      rw [hanswer, answerOf, if_neg hrefused, if_pos hrate] at hdraw
      cases hdraw
    simp [hkey, hnow, hallowed]
  have hcount : allowedOn k 0 0 (m.trace ∅ (burstAtZero k (⌊(m.limitsOf k).capacity⌋₊ + 1)))
      = ⌊(m.limitsOf k).capacity⌋₊ + 1 := by
    rw [allowedOn, List.countP_eq_length.mpr hall, length_trace, burstAtZero, List.length_replicate]
  have hbound := h.window 0 0 le_rfl
  rw [hcount, sub_self, zero_mul, add_zero] at hbound
  push_cast at hbound
  exact absurd hbound (not_le.mpr (Nat.lt_floor_add_one _))

/-- A burst on a fresh bucket overdraws nothing, as no time passes. -/
theorem noOverdraft_burst (hmax : 1 ≤ m.maxTrackedIps) (hcapacity : 0 ≤ (m.limitsOf k).capacity)
    (hrate : 0 ≤ (m.limitsOf k).refillRate) (n : ℕ) : m.NoOverdraft k ∅ (burstAtZero k n) := by
  refine noOverdraft_of_sorted hmax hcapacity hrate (kept_burst n) (fun bucket h => by simp at h) ?_
  exact List.pairwise_replicate.mpr (.inr le_rfl)

/-- **When the limiter keeps its promises**: for the runs that keep a key's bucket, the law is exactly
that the clock overdraws nothing, and that is so exactly for usable limits. -/
theorem tokenBucketLaw_iff_noOverdraft (m : RateLimitMiddleware) (k : String) :
    (∀ calls, m.Kept k ∅ calls → (m.TokenBucketLaw k calls ↔ m.NoOverdraft k ∅ calls)) ↔ m.Usable k := by
  constructor
  · intro h
    have hone : m.TokenBucketLaw k (burstAtZero k 1) :=
      (h _ (kept_burst 1)).mpr (noOverdraft_first (k, 0))
    have hmax := one_le_maxTrackedIps_of_law hone
    have hcapacity := one_le_capacity_of_law hmax hone
    have hrate := rate_nonneg_of_law hmax hcapacity hone
    have hburst := noOverdraft_burst hmax (le_trans zero_le_one hcapacity) hrate
      (⌊(m.limitsOf k).capacity⌋₊ + 1)
    have hne := rate_ne_zero_of_law hmax ((h _ (kept_burst _)).mpr hburst)
    exact ⟨hmax, hcapacity, lt_of_le_of_ne hrate hne.symm⟩
  · intro husable calls hkept
    exact ⟨noOverdraft_of_law husable, law_of_noOverdraft husable hkept⟩

end RateLimitMiddleware

/-- `RATE_LIMIT_REQUESTS=0` and `RATE_LIMIT_BURST=1`, the rest as by default. -/
def noRefill : RateLimitMiddleware where
  shared := ⟨0, 60, 1, by norm_num⟩
  authFailure := ⟨20, 60, 5, by norm_num⟩
  maxTrackedIps := 10000
  trustedProxies := []

/-- One caller, twice within a second. -/
def twoCalls : List (String × ℚ) := [("ip:10.0.0.1", 0), ("ip:10.0.0.1", 1)]

/-- **A rate of zero divides by zero**: the second call of one caller raises, though nothing was
dropped and the clock went forward. -/
theorem noRefill_twoCalls_not_law :
    (noRefill.trace ∅ twoCalls).map Visit.result = [.ok (true, 0), .error .zeroDivision] ∧
    noRefill.Kept "ip:10.0.0.1" ∅ twoCalls ∧ ¬ noRefill.TokenBucketLaw "ip:10.0.0.1" twoCalls := by
  have hresults : (noRefill.trace ∅ twoCalls).map Visit.result = [.ok (true, 0), .error .zeroDivision] := by
    decide +kernel
  refine ⟨hresults, ?_, fun h => ?_⟩
  · unfold RateLimitMiddleware.Kept
    decide +kernel
  · have hmem : .error .zeroDivision ∈ (noRefill.trace ∅ twoCalls).map Visit.result := by
      rw [hresults]
      exact List.mem_cons_of_mem _ List.mem_cons_self
    obtain ⟨v, hv, hresult⟩ := List.mem_map.mp hmem
    have hkey : v.key = "ip:10.0.0.1" := by
      have hcall := RateLimitMiddleware.mem_trace_call hv
      simp only [twoCalls, List.mem_cons, List.not_mem_nil, or_false, Prod.mk.injEq] at hcall
      exact hcall.elim And.left And.left
    obtain ⟨answer, hanswer⟩ := h.returns v hv hkey
    rw [hresult] at hanswer
    cases hanswer

end LocalSqlAgent
