import Mathlib.Algebra.Order.Field.Basic
import Mathlib.Tactic.Linarith
import Mathlib.Tactic.FieldSimp
import Mathlib.Tactic.Ring

/-! # Token buckets with lazy refill

A bucket of tokens that is refilled only when it is looked at: a look at reading `now` adds
`rate` tokens for each unit since the last look, up to `capacity`, and a draw takes one token if there
is one. Readings are arbitrary; they may go back.

* **`refill`**, **`draw`**: one look, and one look followed by an attempt to take a token.
* **`drawAll`**: a sequence of draws, from a bucket or from none (a fresh bucket starts full).
* **`allowedWithin_le`**: the draws allowed at readings within `[t₁, t₂]` are at most
  `capacity + (t₂ - t₁) * rate`, whatever the order of the readings.
* **`draw_tokens_nonneg_iff`**: how far a reading may go back before the tokens fall below zero. -/

namespace LocalSqlAgent

universe u

/-- Tokens, and the reading they were last refilled at. -/
structure TokenBucket (K : Type u) where
  /-- The tokens left. -/
  tokens : K
  /-- The reading of the last look. -/
  lastRefill : K
  deriving DecidableEq, Repr

namespace TokenBucket

variable {K : Type u} [Field K] [LinearOrder K]

/-- Tokens for the time since the last look, up to the capacity. -/
def refill (capacity rate : K) (b : TokenBucket K) (now : K) : TokenBucket K :=
  ⟨min capacity (b.tokens + (now - b.lastRefill) * rate), now⟩

/-- Refill, then take a token if there is one. -/
def draw (capacity rate : K) (b : TokenBucket K) (now : K) : Bool × TokenBucket K :=
  let r := b.refill capacity rate now
  if 1 ≤ r.tokens then (true, { r with tokens := r.tokens - 1 }) else (false, r)

/-- The bucket a draw starts from: the one there is, or a full one. -/
def orFull (capacity : K) (b : Option (TokenBucket K)) (now : K) : TokenBucket K :=
  b.getD ⟨capacity, now⟩

/-- A sequence of draws: each reading with whether its draw was allowed. -/
def drawAll (capacity rate : K) : Option (TokenBucket K) → List K → List (K × Bool)
  | _, [] => []
  | b, now :: rest =>
    let d := draw capacity rate (orFull capacity b now) now
    (now, d.1) :: drawAll capacity rate (some d.2) rest

/-- The number of draws allowed at readings within `[t₁, t₂]`. -/
def allowedWithin (t₁ t₂ : K) (draws : List (K × Bool)) : ℕ :=
  draws.countP fun d => d.2 && decide (t₁ ≤ d.1 ∧ d.1 ≤ t₂)

omit [Field K] in
@[simp] theorem allowedWithin_nil (t₁ t₂ : K) : allowedWithin t₁ t₂ [] = 0 := rfl

omit [Field K] in
theorem allowedWithin_cons (t₁ t₂ now : K) (allowed : Bool) (draws : List (K × Bool)) :
    allowedWithin t₁ t₂ ((now, allowed) :: draws)
      = allowedWithin t₁ t₂ draws + if allowed = true ∧ t₁ ≤ now ∧ now ≤ t₂ then 1 else 0 := by
  unfold allowedWithin
  rw [List.countP_cons]
  simp only [Bool.and_eq_true, decide_eq_true_eq]

/-! ## One draw -/

@[simp] theorem refill_lastRefill (capacity rate : K) (b : TokenBucket K) (now : K) :
    (b.refill capacity rate now).lastRefill = now := rfl

theorem refill_tokens_le (capacity rate : K) (b : TokenBucket K) (now : K) :
    (b.refill capacity rate now).tokens ≤ capacity := min_le_left _ _

theorem refill_tokens_le_earned (capacity rate : K) (b : TokenBucket K) (now : K) :
    (b.refill capacity rate now).tokens ≤ b.tokens + (now - b.lastRefill) * rate := min_le_right _ _

theorem draw_allowed_iff {capacity rate : K} {b : TokenBucket K} {now : K} :
    (b.draw capacity rate now).1 = true ↔ 1 ≤ (b.refill capacity rate now).tokens := by
  unfold draw
  dsimp only
  split <;> simp_all

theorem draw_refused_iff {capacity rate : K} {b : TokenBucket K} {now : K} :
    (b.draw capacity rate now).1 = false ↔ (b.refill capacity rate now).tokens < 1 := by
  rw [← not_le, ← draw_allowed_iff, Bool.not_eq_true]

theorem draw_of_allowed {capacity rate : K} {b : TokenBucket K} {now : K}
    (h : (b.draw capacity rate now).1 = true) :
    (b.draw capacity rate now).2 = ⟨(b.refill capacity rate now).tokens - 1, now⟩ := by
  have htokens := draw_allowed_iff.mp h
  unfold draw
  dsimp only
  rw [if_pos htokens]
  rfl

theorem draw_of_refused {capacity rate : K} {b : TokenBucket K} {now : K}
    (h : (b.draw capacity rate now).1 = false) :
    (b.draw capacity rate now).2 = b.refill capacity rate now := by
  have htokens := draw_refused_iff.mp h
  unfold draw
  dsimp only
  rw [if_neg (not_le.mpr htokens)]

@[simp] theorem draw_lastRefill (capacity rate : K) (b : TokenBucket K) (now : K) :
    (b.draw capacity rate now).2.lastRefill = now := by
  unfold draw
  dsimp only
  split <;> rfl

/-- A full bucket stays full when looked at at once. -/
theorem refill_full (capacity rate now : K) :
    (refill capacity rate ⟨capacity, now⟩ now).tokens = capacity := by
  show min capacity (capacity + (now - now) * rate) = capacity
  rw [sub_self, zero_mul, add_zero, min_self]

/-- With less room than a whole token nothing is ever allowed. -/
theorem draw_refused_of_capacity_lt {capacity : K} (hcapacity : capacity < 1) (rate : K)
    (b : TokenBucket K) (now : K) : (b.draw capacity rate now).1 = false :=
  draw_refused_iff.mpr (lt_of_le_of_lt (refill_tokens_le _ _ _ _) hcapacity)

variable [IsStrictOrderedRing K]

/-- A draw leaves no more than the capacity. -/
theorem draw_tokens_le (capacity rate : K) (b : TokenBucket K) (now : K) :
    (b.draw capacity rate now).2.tokens ≤ capacity := by
  have hle := refill_tokens_le capacity rate b now
  cases h : (b.draw capacity rate now).1 with
  | true =>
    rw [draw_of_allowed h]
    dsimp only
    linarith
  | false =>
    rw [draw_of_refused h]
    exact hle

/-- **Tokens stay at or above zero** exactly where the reading does not go back further than the tokens
left pay for. -/
theorem draw_tokens_nonneg_iff {capacity rate : K} (hcapacity : 0 ≤ capacity) (b : TokenBucket K)
    (now : K) :
    0 ≤ (b.draw capacity rate now).2.tokens ↔ 0 ≤ b.tokens + (now - b.lastRefill) * rate := by
  have hle := refill_tokens_le_earned capacity rate b now
  cases h : (b.draw capacity rate now).1 with
  | true =>
    have htokens := draw_allowed_iff.mp h
    rw [draw_of_allowed h]
    dsimp only
    constructor <;> intro _ <;> linarith
  | false =>
    rw [draw_of_refused h]
    show 0 ≤ min capacity (b.tokens + (now - b.lastRefill) * rate) ↔ _
    rw [le_min_iff]
    exact and_iff_right hcapacity

/-- **Waiting for the missing part of a token is enough**: with a positive rate and room for a whole
token, a draw at least `(1 - tokens) / rate` after a refused one is allowed. -/
theorem draw_allowed_after_wait {capacity rate : K} (hcapacity : 1 ≤ capacity) (hrate : 0 < rate)
    {r : TokenBucket K} {later : K} (hlater : r.lastRefill + (1 - r.tokens) / rate ≤ later) :
    (r.draw capacity rate later).1 = true := by
  have hwait : (1 - r.tokens) / rate ≤ later - r.lastRefill := by linarith
  have hearned : 1 - r.tokens ≤ (later - r.lastRefill) * rate := (div_le_iff₀ hrate).mp hwait
  refine draw_allowed_iff.mpr (le_min hcapacity ?_)
  linarith

/-- What a draw spends, the tokens pay: the tokens it leaves, counted back to reading zero, are fewer by
the token it took. -/
theorem draw_potential (capacity rate : K) (b : TokenBucket K) (now : K) :
    (if (b.draw capacity rate now).1 then 1 else 0) + (b.draw capacity rate now).2.tokens
      ≤ b.tokens + (now - b.lastRefill) * rate := by
  have hle := refill_tokens_le_earned capacity rate b now
  cases h : (b.draw capacity rate now).1 with
  | true =>
    rw [draw_of_allowed h]
    simp only [if_true]
    linarith
  | false =>
    rw [draw_of_refused h]
    simpa using hle

/-! ## Windows over a sequence of draws -/

/-- The draws allowed within a window, if any, are paid by the tokens at its start and the refill up to
its end. -/
theorem allowedWithin_le_of_pos {capacity rate : K} (hrate : 0 ≤ rate) (t₁ t₂ : K) (b : TokenBucket K)
    (readings : List K) (hpos : 0 < allowedWithin t₁ t₂ (drawAll capacity rate (some b) readings)) :
    (allowedWithin t₁ t₂ (drawAll capacity rate (some b) readings) : K)
      ≤ b.tokens + (t₂ - b.lastRefill) * rate := by
  induction readings generalizing b with
  | nil => exact absurd hpos (lt_irrefl _)
  | cons now rest ih =>
    have hpotential := draw_potential capacity rate b now
    have hlast := draw_lastRefill capacity rate b now
    have hstep : drawAll capacity rate (some b) (now :: rest)
        = (now, (b.draw capacity rate now).1)
          :: drawAll capacity rate (some (b.draw capacity rate now).2) rest := rfl
    rw [hstep, allowedWithin_cons] at hpos ⊢
    by_cases hrest : 0 < allowedWithin t₁ t₂ (drawAll capacity rate (some (b.draw capacity rate now).2) rest)
    · -- the rest is paid from what this draw leaves
      have hih := ih _ hrest
      rw [hlast] at hih
      push_cast
      split_ifs <;> split_ifs at hpotential <;> first | linarith | simp_all
    · -- this draw is the last one allowed in the window, and its reading is in it
      have hzero : allowedWithin t₁ t₂ (drawAll capacity rate (some (b.draw capacity rate now).2) rest) = 0 :=
        Nat.eq_zero_of_not_pos hrest
      rw [hzero] at hpos ⊢
      have hin : (b.draw capacity rate now).1 = true ∧ t₁ ≤ now ∧ now ≤ t₂ := by
        by_contra hne
        rw [if_neg hne] at hpos
        exact absurd hpos (lt_irrefl _)
      have htokens := draw_allowed_iff.mp hin.1
      have hearned := refill_tokens_le_earned capacity rate b now
      have htime : (now - b.lastRefill) * rate ≤ (t₂ - b.lastRefill) * rate :=
        mul_le_mul_of_nonneg_right (sub_le_sub_right hin.2.2 _) hrate
      rw [if_pos hin, Nat.zero_add, Nat.cast_one]
      linarith

/-- **The window bound**: at most `capacity + (t₂ - t₁) * rate` draws are allowed at readings within
`[t₁, t₂]`, for readings in any order. -/
theorem allowedWithin_le {capacity rate : K} (hcapacity : 0 ≤ capacity) (hrate : 0 ≤ rate) {t₁ t₂ : K}
    (ht : t₁ ≤ t₂) (b : Option (TokenBucket K)) (readings : List K) :
    (allowedWithin t₁ t₂ (drawAll capacity rate b readings) : K) ≤ capacity + (t₂ - t₁) * rate := by
  have hbound : 0 ≤ capacity + (t₂ - t₁) * rate :=
    add_nonneg hcapacity (mul_nonneg (sub_nonneg.mpr ht) hrate)
  induction readings generalizing b with
  | nil =>
    rw [drawAll, allowedWithin_nil, Nat.cast_zero]
    exact hbound
  | cons now rest ih =>
    have hstep : drawAll capacity rate b (now :: rest)
        = (now, ((orFull capacity b now).draw capacity rate now).1)
          :: drawAll capacity rate (some ((orFull capacity b now).draw capacity rate now).2) rest := rfl
    rw [hstep, allowedWithin_cons]
    by_cases hin : ((orFull capacity b now).draw capacity rate now).1 = true ∧ t₁ ≤ now ∧ now ≤ t₂
    · -- the first draw allowed in the window: at most `capacity` tokens were there, the rest is refill
      obtain ⟨hallowed, hfrom, hto⟩ := hin
      have htokens := draw_allowed_iff.mp hallowed
      have hle := refill_tokens_le capacity rate (orFull capacity b now) now
      have htime : (t₂ - now) * rate ≤ (t₂ - t₁) * rate :=
        mul_le_mul_of_nonneg_right (sub_le_sub_left hfrom _) hrate
      have hspan : 0 ≤ (t₂ - now) * rate := mul_nonneg (sub_nonneg.mpr hto) hrate
      rw [if_pos ⟨hallowed, hfrom, hto⟩, draw_of_allowed hallowed]
      push_cast
      by_cases hrest : 0 < allowedWithin t₁ t₂ (drawAll capacity rate
          (some ⟨((orFull capacity b now).refill capacity rate now).tokens - 1, now⟩) rest)
      · have hpaid := allowedWithin_le_of_pos hrate t₁ t₂ _ rest hrest
        dsimp only at hpaid
        linarith
      · rw [Nat.eq_zero_of_not_pos hrest, Nat.cast_zero]
        linarith
    · rw [if_neg hin, Nat.add_zero]
      exact ih _

end TokenBucket

end LocalSqlAgent
