import Mathlib.Data.Rat.Floor
import LocalSqlAgent.Lib.OrderedDict
import LocalSqlAgent.Lib.PyText
import LocalSqlAgent.Lib.TokenBucket

/-! # The rate limiter

`api.middleware.RateLimitMiddleware`: one token bucket for each bucket key, in an `OrderedDict` that
drops the least recently seen key when too many are tracked. Times are exact rationals; the reading of
the clock is an argument of `consume`, taken before the lock, so successive calls may see it go back. -/

namespace LocalSqlAgent

/-! ## Limits -/

/-- One allowance as `config.Settings` has it. Construction divides by the window. -/
structure RateLimits where
  /-- `rate_limit_requests`. -/
  requestsPerWindow : ℤ
  /-- `rate_limit_window_seconds`. -/
  windowSeconds : ℚ
  /-- `rate_limit_burst`. -/
  burst : ℤ
  /-- A window of zero fails in the constructor. -/
  window_ne_zero : windowSeconds ≠ 0

namespace RateLimits

/-- `_capacity`. -/
def capacity (l : RateLimits) : ℚ := l.requestsPerWindow + l.burst

/-- `_refill_rate`, tokens per second. -/
def refillRate (l : RateLimits) : ℚ := l.requestsPerWindow / l.windowSeconds

end RateLimits

/-- `RateLimitMiddleware`, as constructed. -/
structure RateLimitMiddleware where
  /-- The shared allowance. -/
  shared : RateLimits
  /-- The allowance of callers whose credentials did not resolve. -/
  authFailure : RateLimits
  /-- `max_tracked_ips`. -/
  maxTrackedIps : ℤ
  /-- `trusted_proxies`. -/
  trustedProxies : List String

/-! ## Bucket keys -/

/-- What the middleware reads of a request, `AuthMiddleware` having run. -/
structure LimitedRequest where
  /-- `request.client.host`. -/
  clientHost : Option String
  /-- The `x-forwarded-for` header. -/
  forwardedFor : Option String
  /-- The `x-real-ip` header. -/
  realIp : Option String
  /-- An `Authorization` header was presented. -/
  headerPresent : Bool
  /-- The id of the principal it resolved to. -/
  principal : Option String

namespace LimitedRequest

/-- `request.state.auth_failed`. -/
def authFailed (r : LimitedRequest) : Bool := r.headerPresent && r.principal.isNone

/-- A header that is present and not empty. -/
def nonEmpty (header : Option String) : Option String := header.filter (· ≠ "")

/-- `str.strip()`. -/
def stripText (s : String) : String := String.ofList (strip s.toList)

/-- `_client_ip`. -/
def clientIp (m : RateLimitMiddleware) (r : LimitedRequest) : String :=
  let directIp := r.clientHost.getD "unknown"
  if directIp ∉ m.trustedProxies then directIp
  else
    match nonEmpty r.forwardedFor with
    | some forwardedFor => stripText ((forwardedFor.splitOn ",").headD "")
    | none =>
      match nonEmpty r.realIp with
      | some realIp => stripText realIp
      | none => directIp

/-- `_bucket_key`. -/
def bucketKey (m : RateLimitMiddleware) (r : LimitedRequest) : String :=
  match r.principal with
  | some id => "principal:" ++ id ++ "|ip:" ++ r.clientIp m
  | none => if r.authFailed then "authfail|ip:" ++ r.clientIp m else "ip:" ++ r.clientIp m

end LimitedRequest

namespace RateLimitMiddleware

/-- The allowance `dispatch` passes for a request. -/
def limitsFor (m : RateLimitMiddleware) (r : LimitedRequest) : RateLimits :=
  if r.authFailed then m.authFailure else m.shared

/-- The allowance of a bucket key: the keys of failed credentials are a namespace of their own. -/
def limitsOf (m : RateLimitMiddleware) (bucketKey : String) : RateLimits :=
  if "authfail|ip:".toList <+: bucketKey.toList then m.authFailure else m.shared

/-- **One allowance for each key**: what `dispatch` passes depends on the bucket key alone. -/
theorem limitsFor_eq_limitsOf (m : RateLimitMiddleware) (r : LimitedRequest) :
    m.limitsFor r = m.limitsOf (r.bucketKey m) := by
  unfold limitsFor limitsOf LimitedRequest.bucketKey LimitedRequest.authFailed
  cases r.principal with
  | some id => simp
  | none =>
    cases r.headerPresent <;> simp

end RateLimitMiddleware

/-! ## Consuming a token -/

/-- What `_consume` can raise. -/
inductive ConsumeError
  /-- `popitem` on an empty dictionary. -/
  | keyError
  /-- Division by a refill rate of zero. -/
  | zeroDivision
  deriving DecidableEq, Repr

/-- `_buckets`. -/
abbrev Buckets := OrderedDict String (TokenBucket ℚ)

/-- What `_consume` answers (whether the call is allowed, and `retry_after`), and the buckets after. -/
abbrev Consumed := Except ConsumeError (Bool × ℚ) × Buckets

open OrderedDict TokenBucket

/-- The rest of `_consume` once the key has a bucket: refill it, then take a token or say when one will
be there. The bucket is updated before the division. -/
def refillAndTake (limits : RateLimits) (now : ℚ) (bucketKey : String) (bucket : TokenBucket ℚ)
    (buckets : Buckets) : Consumed :=
  let elapsed := now - bucket.lastRefill
  let tokens := min limits.capacity (bucket.tokens + elapsed * limits.refillRate)
  if 1 ≤ tokens then (.ok (true, 0), buckets.put bucketKey ⟨tokens - 1, now⟩)
  else if limits.refillRate = 0 then (.error .zeroDivision, buckets.put bucketKey ⟨tokens, now⟩)
  else (.ok (false, (1 - tokens) / limits.refillRate), buckets.put bucketKey ⟨tokens, now⟩)

namespace RateLimitMiddleware

/-- `_consume`. -/
def consume (m : RateLimitMiddleware) (now : ℚ) (bucketKey : String) (buckets : Buckets) : Consumed :=
  let limits := m.limitsOf bucketKey
  match buckets.lookup bucketKey with
  | some bucket => refillAndTake limits now bucketKey bucket buckets
  | none =>
    if m.maxTrackedIps ≤ size buckets then
      match popOldest buckets with
      | none => (.error .keyError, buckets)
      | some (_, rest) => refillAndTake limits now bucketKey ⟨limits.capacity, now⟩ rest
    else refillAndTake limits now bucketKey ⟨limits.capacity, now⟩ buckets

/-- The draw a call on a key is, its bucket being the tracked one or a fresh one. -/
def drawOf (m : RateLimitMiddleware) (now : ℚ) (bucketKey : String) (buckets : Buckets) :
    Bool × TokenBucket ℚ :=
  let limits := m.limitsOf bucketKey
  draw limits.capacity limits.refillRate (orFull limits.capacity (buckets.lookup bucketKey) now) now

end RateLimitMiddleware

/-- The answer to a draw: allowed, or refused with the time to the next token. -/
def answerOf (rate : ℚ) (d : Bool × TokenBucket ℚ) : Except ConsumeError (Bool × ℚ) :=
  if d.1 then .ok (true, 0)
  else if rate = 0 then .error .zeroDivision
  else .ok (false, (1 - d.2.tokens) / rate)

theorem refillAndTake_eq (limits : RateLimits) (now : ℚ) (bucketKey : String) (bucket : TokenBucket ℚ)
    (buckets : Buckets) :
    refillAndTake limits now bucketKey bucket buckets
      = (answerOf limits.refillRate (draw limits.capacity limits.refillRate bucket now),
         buckets.put bucketKey (draw limits.capacity limits.refillRate bucket now).2) := by
  unfold refillAndTake answerOf draw TokenBucket.refill
  dsimp only
  by_cases htokens : 1 ≤ min limits.capacity (bucket.tokens + (now - bucket.lastRefill) * limits.refillRate)
  · simp only [if_pos htokens, if_true]
  · by_cases hrate : limits.refillRate = 0
    · simp only [if_neg htokens, Bool.false_eq_true, if_false, if_pos hrate]
    · simp only [if_neg htokens, Bool.false_eq_true, if_false, if_neg hrate]

namespace RateLimitMiddleware

variable {m : RateLimitMiddleware} {now : ℚ} {key k : String} {b : Buckets}

/-- **What a call can do**: fail for want of a key to drop, or answer its draw over the buckets there
are, less perhaps the oldest key. -/
theorem consume_cases (m : RateLimitMiddleware) (now : ℚ) (key : String) (b : Buckets) :
    (m.consume now key b = (.error .keyError, b) ∧ key ∉ b ∧ b.size = 0 ∧ m.maxTrackedIps ≤ 0) ∨
    ∃ rest : Buckets,
      m.consume now key b
        = (answerOf (m.limitsOf key).refillRate (m.drawOf now key b), rest.put key (m.drawOf now key b).2) ∧
      ((rest = b ∧ (key ∈ b ∨ (size b : ℤ) < m.maxTrackedIps)) ∨
        (key ∉ b ∧ ∃ oldest, popOldest b = some (oldest, rest))) := by
  unfold consume drawOf
  dsimp only
  cases hlookup : b.lookup key with
  | some bucket =>
    have hmem : key ∈ b := AList.lookup_isSome.mp (by rw [hlookup]; rfl)
    exact .inr ⟨b, refillAndTake_eq _ _ _ _ _, .inl ⟨rfl, .inl hmem⟩⟩
  | none =>
    have hnotMem : key ∉ b := AList.lookup_eq_none.mp hlookup
    dsimp only
    split
    · rename_i hfull
      cases hpop : popOldest b with
      | none =>
        have hsize := popOldest_eq_none_iff.mp hpop
        exact .inl ⟨rfl, hnotMem, hsize, by rw [hsize] at hfull; exact_mod_cast hfull⟩
      | some popped =>
        obtain ⟨oldest, rest⟩ := popped
        exact .inr ⟨rest, refillAndTake_eq _ _ _ _ _, .inr ⟨hnotMem, oldest, rfl⟩⟩
    · rename_i hroom
      exact .inr ⟨b, refillAndTake_eq _ _ _ _ _, .inl ⟨rfl, .inr (not_le.mp hroom)⟩⟩

/-- With room for a key, a call answers its draw and the key's bucket is what the draw left. -/
theorem consume_own (hmax : 1 ≤ m.maxTrackedIps) (now : ℚ) (key : String) (b : Buckets) :
    (m.consume now key b).1 = answerOf (m.limitsOf key).refillRate (m.drawOf now key b) ∧
      (m.consume now key b).2.lookup key = some (m.drawOf now key b).2 := by
  obtain ⟨-, -, -, hle⟩ | ⟨rest, heq, -⟩ := consume_cases m now key b
  · omega
  · rw [heq]
    exact ⟨rfl, lookup_put_self _ _ _⟩

/-- A call on another key leaves this key's bucket as it is, or drops it. -/
theorem consume_other (hne : k ≠ key) :
    (m.consume now key b).2.lookup k = b.lookup k ∨ (k ∈ b ∧ k ∉ (m.consume now key b).2) := by
  obtain ⟨heq, -⟩ | ⟨rest, heq, hrest⟩ := consume_cases m now key b
  · exact .inl (by rw [heq])
  · rw [heq]
    dsimp only
    rw [lookup_put_of_ne _ _ hne]
    obtain ⟨rfl, -⟩ | ⟨-, oldest, hpop⟩ := hrest
    · exact .inl rfl
    · by_cases hk : k = oldest
      · subst hk
        have hgone := notMem_of_popOldest hpop
        refine .inr ⟨?_, ?_⟩
        · rw [AList.mem_keys, keys_of_popOldest hpop]
          exact List.mem_cons_self
        · rw [← AList.lookup_eq_none, lookup_put_of_ne _ _ hne]
          exact AList.lookup_eq_none.mpr hgone
      · exact .inl (lookup_of_popOldest hpop hk)

/-- The map does not grow beyond its bound. -/
theorem consume_size_le (hsize : (size b : ℤ) ≤ m.maxTrackedIps) :
    (size (m.consume now key b).2 : ℤ) ≤ m.maxTrackedIps := by
  obtain ⟨heq, -⟩ | ⟨rest, heq, hrest⟩ := consume_cases m now key b
  · rw [heq]
    exact hsize
  · rw [heq]
    dsimp only
    obtain ⟨rfl, hmem | hroom⟩ | ⟨hnotMem, oldest, hpop⟩ := hrest
    · rw [size_put_of_mem _ _ hmem]
      exact hsize
    · by_cases hmem : key ∈ rest
      · rw [size_put_of_mem _ _ hmem]
        exact hsize
      · rw [size_put_of_notMem _ _ hmem]
        push_cast
        omega
    · have hrest : key ∉ rest := by
        rw [AList.mem_keys, keys_of_popOldest hpop] at hnotMem
        exact fun h => hnotMem (List.mem_cons_of_mem _ h)
      rw [size_put_of_notMem _ _ hrest, ← size_of_popOldest hpop]
      exact hsize

end RateLimitMiddleware

end LocalSqlAgent
