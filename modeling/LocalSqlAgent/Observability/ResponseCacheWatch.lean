import Mathlib.Algebra.Order.Ring.Rat
import Mathlib.Data.List.Dedup
import LocalSqlAgent.Lib.OrderedDict
import LocalSqlAgent.Lib.PyText

/-! # The response-cache watch

`observability.response_cache_watch.ResponseCacheWatch`: a reply that comes faster than a model can write
it, with SQL that another question got a moment ago, looks like one out of a cache. The watch keeps one
question and one time for each statement of a source.

* **`observe`**: the method, with its reading of the clock in the call.
* **`lookup_seen_of_calls`**: while there is room for every statement seen, what is kept of one is the
  latest call with a question.
* **`observe_exact_iff`**: a call is flagged exactly when an earlier one within the window got the same SQL
  for another question, unless the latest call with that SQL repeated this call's question. -/

namespace LocalSqlAgent

universe u

/-- Arguments of `ResponseCacheWatch.observe`, with the reading of the clock. -/
structure WatchedCall where
  /-- The data source, `none` or empty with a single one. -/
  source : Option String
  /-- The question as asked. -/
  question : String
  /-- The generated SQL. -/
  sql : String
  /-- The time of the reply in milliseconds, `none` when it is not known. -/
  totalMs : Option ℕ
  /-- `self._clock()`. -/
  now : ℚ
  deriving DecidableEq

namespace WatchedCall

/-- `source or ""`. -/
def sourceKey (c : WatchedCall) : String := c.source.getD ""

/-- The call has a question and SQL. -/
def Complete (c : WatchedCall) : Prop := c.sql ≠ "" ∧ c.question ≠ ""

instance : DecidablePred Complete := fun _ => inferInstanceAs (Decidable (_ ∧ _))

/-- The source and the SQL of a call. -/
def statement (c : WatchedCall) : String × String := (c.sourceKey, c.sql)

/-- A question with its case and its white space folded: `" ".join(question.split()).casefold()`. -/
def foldedQuestion (casefold : String → String) (c : WatchedCall) : String :=
  casefold (String.ofList (strip (collapseSpaces c.question.toList)))

end WatchedCall

/-- `ResponseCacheWatch`, under a digest with values in `δ`. -/
structure ResponseCacheWatch (δ : Type u) where
  /-- `threshold_ms`. -/
  thresholdMs : ℤ
  /-- `capacity`. -/
  capacity : ℕ
  /-- `window_seconds`. -/
  windowSeconds : ℚ
  /-- `_seen`: the question digest and the time, by source and SQL digest. -/
  seen : OrderedDict (String × δ) (δ × ℚ)
  /-- `_last_suspect`: the last suspected request of a source. -/
  lastSuspect : OrderedDict String ℚ

/-- What a call of `observe` did. -/
structure Observed (δ : Type u) where
  /-- The value returned. -/
  suspected : Bool
  /-- A warning was logged. -/
  warned : Bool
  /-- The watch after. -/
  after : ResponseCacheWatch δ

namespace ResponseCacheWatch

variable {δ : Type u}

/-- `ResponseCacheWatch(threshold_ms, capacity, window_seconds)`. -/
def new (thresholdMs capacity : ℤ) (windowSeconds : ℚ) : ResponseCacheWatch δ where
  thresholdMs := thresholdMs
  capacity := (max 1 capacity).toNat
  windowSeconds := windowSeconds
  seen := ∅
  lastSuspect := ∅

variable (digest : String → δ) (casefold : String → String)

/-- The key of `_seen`. -/
def seenKey (c : WatchedCall) : String × δ := (c.sourceKey, digest c.sql)

/-- `_question_digest`. -/
def questionDigest (c : WatchedCall) : δ := digest (c.foldedQuestion casefold)

variable [DecidableEq δ] (w : ResponseCacheWatch δ)

/-- Whether a call is suspected, given what is kept of its statement. -/
def suspects (c : WatchedCall) : Bool :=
  match w.seen.lookup (seenKey digest c), c.totalMs with
  | some previous, some ms =>
    decide (previous.1 ≠ questionDigest digest casefold c) && decide (c.now - previous.2 ≤ w.windowSeconds) &&
      decide ((ms : ℤ) < w.thresholdMs)
  | _, _ => false

/-- `self._seen[key] = (question_hash, now)`, moved to the end, and the oldest dropped over the capacity. -/
def remember (c : WatchedCall) : OrderedDict (String × δ) (δ × ℚ) :=
  (w.seen.put (seenKey digest c) (questionDigest digest casefold c, c.now)).keepNewest w.capacity

/-- A suspected request starts a streak. -/
def startsStreak (c : WatchedCall) : Bool :=
  match w.lastSuspect.lookup c.sourceKey with
  | none => true
  | some last => decide (w.windowSeconds < c.now - last)

/-- **`observe`.** -/
def observe (c : WatchedCall) : Observed δ :=
  if w.thresholdMs ≤ 0 ∨ ¬ c.Complete then ⟨false, false, w⟩
  else if w.suspects digest casefold c then
    ⟨true, w.startsStreak c,
      { w with
        seen := w.remember digest casefold c
        lastSuspect := w.lastSuspect.assign c.sourceKey c.now }⟩
  else ⟨false, false, { w with seen := w.remember digest casefold c }⟩

/-- The watch after a sequence of calls. -/
def observeAll (calls : List WatchedCall) : ResponseCacheWatch δ :=
  calls.foldl (fun w c => (w.observe digest casefold c).after) w

end ResponseCacheWatch

/-! ## What is kept -/

namespace ResponseCacheWatch

variable {δ : Type u} [DecidableEq δ] {digest : String → δ} {casefold : String → String}
  {w : ResponseCacheWatch δ} {calls : List WatchedCall} {c : WatchedCall}

/-- The latest call with a question for the same SQL of the same source. -/
def latest (calls : List WatchedCall) (c : WatchedCall) : Option WatchedCall :=
  (calls.filter fun e => e.Complete ∧ e.statement = c.statement).getLast?

/-- **The watch keeps the latest calls**: of every statement the latest one, and nothing else. -/
structure Keeps (digest : String → δ) (casefold : String → String) (w : ResponseCacheWatch δ)
    (calls : List WatchedCall) : Prop where
  lookup : ∀ c, w.seen.lookup (seenKey digest c) =
    (latest calls c).map fun e => (questionDigest digest casefold e, e.now)
  keys : ∀ k ∈ w.seen, ∃ e ∈ calls, k = seenKey digest e

omit [DecidableEq δ] in
/-- Calls have a key in common exactly when they have the statement in common. -/
theorem seenKey_inj (hdigest : Function.Injective digest) {e c : WatchedCall} :
    seenKey digest e = seenKey digest c ↔ e.statement = c.statement := by
  unfold seenKey WatchedCall.statement
  rw [Prod.mk.injEq, Prod.mk.injEq, hdigest.eq_iff]

omit [DecidableEq δ] in
/-- As many keys as statements, at most. -/
theorem size_le_statements {d : OrderedDict (String × δ) (δ × ℚ)}
    (hkeys : ∀ k ∈ d, ∃ e ∈ calls, k = seenKey digest e) :
    d.size ≤ (calls.map WatchedCall.statement).dedup.length := by
  have hsubset : d.keys ⊆ (calls.map WatchedCall.statement).dedup.map fun s => (s.1, digest s.2) := by
    intro k hk
    obtain ⟨e, he, rfl⟩ := hkeys k hk
    exact List.mem_map.mpr ⟨e.statement, List.mem_dedup.mpr (List.mem_map_of_mem he), rfl⟩
  have hle := (List.subperm_of_subset d.keys_nodup hsubset).length_le
  rwa [List.length_map] at hle

@[simp] theorem observe_thresholdMs : (w.observe digest casefold c).after.thresholdMs = w.thresholdMs := by
  unfold observe
  split
  · rfl
  · split <;> rfl

@[simp] theorem observe_capacity : (w.observe digest casefold c).after.capacity = w.capacity := by
  unfold observe
  split
  · rfl
  · split <;> rfl

@[simp] theorem observe_windowSeconds :
    (w.observe digest casefold c).after.windowSeconds = w.windowSeconds := by
  unfold observe
  split
  · rfl
  · split <;> rfl

variable (digest casefold w) in
/-- The settings stay through every sequence of calls. -/
theorem observeAll_settings (calls : List WatchedCall) :
    (w.observeAll digest casefold calls).thresholdMs = w.thresholdMs ∧
      (w.observeAll digest casefold calls).capacity = w.capacity ∧
      (w.observeAll digest casefold calls).windowSeconds = w.windowSeconds := by
  induction calls generalizing w with
  | nil => exact ⟨rfl, rfl, rfl⟩
  | cons c calls ih =>
    obtain ⟨hthreshold, hcapacity, hwindow⟩ := ih (w.observe digest casefold c).after
    exact ⟨hthreshold.trans observe_thresholdMs, hcapacity.trans observe_capacity,
      hwindow.trans observe_windowSeconds⟩

theorem observeAll_concat (calls : List WatchedCall) :
    w.observeAll digest casefold (calls ++ [c]) =
      ((w.observeAll digest casefold calls).observe digest casefold c).after := by
  rw [observeAll, List.foldl_append]
  rfl

variable (digest casefold w c) in
/-- A complete call is remembered, whatever it is taken for. -/
theorem seen_observe (hon : 0 < w.thresholdMs) :
    (w.observe digest casefold c).after.seen =
      if c.Complete then w.remember digest casefold c else w.seen := by
  unfold observe
  by_cases hcomplete : c.Complete
  · rw [if_neg (not_or.mpr ⟨not_le.mpr hon, not_not.mpr hcomplete⟩), if_pos hcomplete]
    split <;> rfl
  · rw [if_pos (.inr hcomplete), if_neg hcomplete]

/-- The latest call after one more. -/
theorem latest_concat (e : WatchedCall) :
    latest (calls ++ [c]) e = if c.Complete ∧ c.statement = e.statement then some c else latest calls e := by
  unfold latest
  rw [List.filter_append]
  split
  · rename_i hmatch
    rw [List.filter_cons_of_pos (by simpa using hmatch), List.filter_nil, List.getLast?_concat]
  · rename_i hmatch
    rw [List.filter_cons_of_neg (by simpa using hmatch), List.filter_nil, List.append_nil]

omit [DecidableEq δ] in
/-- What is kept of earlier calls is kept of more calls. -/
theorem keys_concat {d : OrderedDict (String × δ) (δ × ℚ)}
    (hkeys : ∀ k ∈ d, ∃ e ∈ calls, k = seenKey digest e) :
    ∀ k ∈ d, ∃ e ∈ calls ++ [c], k = seenKey digest e := fun k hk => by
  obtain ⟨e, he, heq⟩ := hkeys k hk
  exact ⟨e, List.mem_append_left _ he, heq⟩

/-- **Remembering a call** is putting it in, while there is room. -/
theorem Keeps.remember_eq (h : Keeps digest casefold w calls)
    (hroom : ((calls ++ [c]).map WatchedCall.statement).dedup.length ≤ w.capacity) :
    w.remember digest casefold c =
      w.seen.put (seenKey digest c) (questionDigest digest casefold c, c.now) := by
  have hkeys : ∀ k ∈ w.seen.put (seenKey digest c) (questionDigest digest casefold c, c.now),
      ∃ e ∈ calls ++ [c], k = seenKey digest e := fun k hk => by
    obtain rfl | hk := OrderedDict.mem_put.mp hk
    · exact ⟨c, List.mem_append_right _ List.mem_cons_self, rfl⟩
    · exact keys_concat h.keys k hk
  exact OrderedDict.keepNewest_of_le (le_trans (size_le_statements hkeys) hroom)

/-- **One call**: the watch keeps the latest calls as long as there is room for their statements. -/
theorem Keeps.observe (h : Keeps digest casefold w calls) (hdigest : Function.Injective digest)
    (hon : 0 < w.thresholdMs)
    (hroom : ((calls ++ [c]).map WatchedCall.statement).dedup.length ≤ w.capacity) :
    Keeps digest casefold (w.observe digest casefold c).after (calls ++ [c]) := by
  by_cases hcomplete : c.Complete
  · have hseen := ((seen_observe digest casefold w c hon).trans
      (if_pos hcomplete)).trans (h.remember_eq hroom)
    refine ⟨fun e => ?_, fun k hk => ?_⟩
    · rw [hseen, latest_concat]
      by_cases hsame : c.statement = e.statement
      · rw [if_pos ⟨hcomplete, hsame⟩, (seenKey_inj hdigest).mpr hsame.symm, OrderedDict.lookup_put_self,
          Option.map_some]
      · have hkey : seenKey digest e ≠ seenKey digest c := fun heq => hsame ((seenKey_inj hdigest).mp heq).symm
        rw [if_neg fun hboth => hsame hboth.2, OrderedDict.lookup_put_of_ne _ _ hkey]
        exact h.lookup e
    · rw [hseen] at hk
      obtain rfl | hk := OrderedDict.mem_put.mp hk
      · exact ⟨c, List.mem_append_right _ List.mem_cons_self, rfl⟩
      · exact keys_concat h.keys k hk
  · have hseen := (seen_observe digest casefold w c hon).trans (if_neg hcomplete)
    refine ⟨fun e => ?_, fun k hk => ?_⟩
    · rw [hseen, latest_concat, if_neg fun hboth => hcomplete hboth.1]
      exact h.lookup e
    · rw [hseen] at hk
      exact keys_concat h.keys k hk

/-- A call more brings no fewer statements. -/
theorem length_dedup_statements_le (calls : List WatchedCall) (c : WatchedCall) :
    (calls.map WatchedCall.statement).dedup.length ≤ ((calls ++ [c]).map WatchedCall.statement).dedup.length := by
  refine (List.subperm_of_subset (List.nodup_dedup _) fun s hs => ?_).length_le
  rw [List.mem_dedup] at hs ⊢
  rw [List.map_append]
  exact List.mem_append_left _ hs

/-- **Every sequence of calls** leaves the latest ones, as long as there is room for their statements. -/
theorem keeps_observeAll (hdigest : Function.Injective digest) {thresholdMs capacity : ℤ} {windowSeconds : ℚ}
    (hon : 0 < thresholdMs)
    (hroom : (calls.map WatchedCall.statement).dedup.length ≤ (max 1 capacity).toNat) :
    Keeps digest casefold ((new thresholdMs capacity windowSeconds).observeAll digest casefold calls) calls := by
  induction calls using List.reverseRecOn with
  | nil => exact ⟨fun _ => rfl, fun k hk => absurd hk (AList.notMem_empty k)⟩
  | append_singleton calls c ih =>
    have hbefore := ih (le_trans (length_dedup_statements_le calls c) hroom)
    rw [observeAll_concat]
    refine hbefore.observe hdigest ?_ ?_
    · rw [(observeAll_settings digest casefold _ calls).1]
      exact hon
    · rw [(observeAll_settings digest casefold _ calls).2.1]
      exact hroom

/-! ## What is flagged -/

/-- The time of the reply is known and below the threshold. -/
def Fast (thresholdMs : ℤ) (c : WatchedCall) : Prop := ∃ ms, c.totalMs = some ms ∧ (ms : ℤ) < thresholdMs

/-- An earlier call within the window got the same SQL from the same source, for another question. -/
def OtherQuestion (casefold : String → String) (windowSeconds : ℚ) (e c : WatchedCall) : Prop :=
  c.now - e.now ≤ windowSeconds ∧ e.statement = c.statement ∧
    e.foldedQuestion casefold ≠ c.foldedQuestion casefold

instance (windowSeconds : ℚ) (e c : WatchedCall) : Decidable (OtherQuestion casefold windowSeconds e c) :=
  inferInstanceAs (Decidable (_ ∧ _ ∧ _))

/-- **A call looks like a cached reply**, given the calls before it. -/
def Suspicious (casefold : String → String) (thresholdMs : ℤ) (windowSeconds : ℚ) (calls : List WatchedCall)
    (c : WatchedCall) : Prop :=
  Fast thresholdMs c ∧ ∃ e ∈ calls, OtherQuestion casefold windowSeconds e c

/-- **No repetition hides it**: the call has a question and SQL, and the latest call with that SQL asked
another question. -/
def LatestDiffers (casefold : String → String) (windowSeconds : ℚ) (calls : List WatchedCall)
    (c : WatchedCall) : Prop :=
  c.Complete ∧ ∃ e, latest calls c = some e ∧ OtherQuestion casefold windowSeconds e c

/-- The latest call is one of the calls, and its SQL the same. -/
theorem mem_of_latest {e : WatchedCall} (h : latest calls c = some e) :
    e ∈ calls ∧ e.statement = c.statement := by
  have hmem := List.mem_filter.mp (List.mem_of_getLast? h)
  exact ⟨hmem.1, (of_decide_eq_true hmem.2).2⟩

/-- What makes a call suspected, in terms of the calls before it. -/
theorem suspects_iff (h : Keeps digest casefold w calls) (hdigest : Function.Injective digest) :
    w.suspects digest casefold c = true ↔
      Fast w.thresholdMs c ∧ ∃ e, latest calls c = some e ∧ OtherQuestion casefold w.windowSeconds e c := by
  unfold suspects Fast
  rw [h.lookup]
  cases hlatest : latest calls c with
  | none => simp
  | some e =>
    cases hms : c.totalMs with
    | none => simp
    | some ms =>
      have hquestion : questionDigest digest casefold e ≠ questionDigest digest casefold c ↔
          e.foldedQuestion casefold ≠ c.foldedQuestion casefold := not_congr hdigest.eq_iff
      simp only [Option.map_some, Bool.and_eq_true, decide_eq_true_iff, Option.some.injEq, exists_eq_left',
        OtherQuestion, hquestion, (mem_of_latest hlatest).2, true_and]
      tauto

/-- **A call is flagged** exactly when it is fast and the latest call with its SQL asked another question. -/
theorem suspected_iff (hdigest : Function.Injective digest) {thresholdMs capacity : ℤ} {windowSeconds : ℚ}
    (hroom : (calls.map WatchedCall.statement).dedup.length ≤ (max 1 capacity).toNat) :
    (((new thresholdMs capacity windowSeconds).observeAll digest casefold calls).observe
        digest casefold c).suspected = true ↔
      Fast thresholdMs c ∧ LatestDiffers casefold windowSeconds calls c := by
  obtain ⟨hthreshold, -, hwindow⟩ := observeAll_settings digest casefold
    (new thresholdMs capacity windowSeconds) calls
  generalize hw : (new thresholdMs capacity windowSeconds).observeAll digest casefold calls = w at hthreshold hwindow
  change w.thresholdMs = thresholdMs at hthreshold
  change w.windowSeconds = windowSeconds at hwindow
  unfold observe LatestDiffers
  by_cases hon : 0 < thresholdMs
  · by_cases hcomplete : c.Complete
    · have hkeeps : Keeps digest casefold w calls := hw ▸ keeps_observeAll hdigest hon hroom
      have hiff := suspects_iff (c := c) hkeeps hdigest
      rw [hthreshold, hwindow] at hiff
      rw [hthreshold, if_neg (not_or.mpr ⟨not_le.mpr hon, not_not.mpr hcomplete⟩), and_iff_right hcomplete,
        ← hiff]
      split
      · rename_i hsuspects
        exact iff_of_true rfl hsuspects
      · rename_i hsuspects
        exact iff_of_false Bool.false_ne_true hsuspects
    · rw [if_pos (.inr hcomplete)]
      exact iff_of_false Bool.false_ne_true fun h => hcomplete h.2.1
  · rw [hthreshold, if_pos (.inl (not_lt.mp hon))]
    refine iff_of_false Bool.false_ne_true ?_
    rintro ⟨⟨ms, -, hms⟩, -⟩
    omega

/-- **The watch is exact but for repetitions**: whether a call is flagged agrees with whether it looks like a
cached reply exactly when it does not, or the latest call with its SQL asked another question. -/
theorem observe_exact_iff (digest : String → δ) (casefold : String → String)
    (hdigest : Function.Injective digest) (thresholdMs capacity : ℤ) (windowSeconds : ℚ)
    (calls : List WatchedCall) (c : WatchedCall)
    (hroom : ((calls ++ [c]).map WatchedCall.statement).dedup.length ≤ (max 1 capacity).toNat) :
    ((((new thresholdMs capacity windowSeconds).observeAll digest casefold calls).observe
        digest casefold c).suspected = true ↔ Suspicious casefold thresholdMs windowSeconds calls c) ↔
      (Suspicious casefold thresholdMs windowSeconds calls c → LatestDiffers casefold windowSeconds calls c) := by
  rw [suspected_iff hdigest (le_trans (length_dedup_statements_le calls c) hroom)]
  constructor
  · intro hexact hsuspicious
    exact (hexact.mpr hsuspicious).2
  · intro hhidden
    constructor
    · rintro ⟨hfast, -, e, hlatest, hother⟩
      exact ⟨hfast, e, (mem_of_latest hlatest).1, hother⟩
    · intro hsuspicious
      exact ⟨hsuspicious.1, hhidden hsuspicious⟩

/-! ## A question asked twice -/

/-- Calls of a single source: the time in seconds, the question, the time of the reply. -/
def callAt (seconds : ℕ) (question : String) (ms : ℕ) : WatchedCall :=
  ⟨none, question, "SELECT 1", some ms, seconds⟩

/-- The SQL of one question, at once for another one: flagged. -/
theorem otherQuestion_flagged :
    (((new 50 200 120).observeAll id id [callAt 0 "q1" 900]).observe id id (callAt 5 "q2" 8)).suspected = true ↔
      Suspicious id 50 120 [callAt 0 "q1" 900] (callAt 5 "q2" 8) :=
  (observe_exact_iff id id Function.injective_id 50 200 120 [callAt 0 "q1" 900] (callAt 5 "q2" 8)
    (by decide)).mpr fun _ => ⟨by decide, callAt 0 "q1" 900, by decide, by decide +kernel⟩

/-- **A question asked twice**: its first reply was slow, and replaced what was kept of the other question. -/
theorem repeatedQuestion_not_flagged :
    ¬ ((((new 50 200 120).observeAll id id [callAt 0 "q1" 900, callAt 5 "q2" 900]).observe id id
        (callAt 10 "q2" 8)).suspected = true ↔
      Suspicious id 50 120 [callAt 0 "q1" 900, callAt 5 "q2" 900] (callAt 10 "q2" 8)) := by
  have hsuspicious : Suspicious id 50 120 [callAt 0 "q1" 900, callAt 5 "q2" 900] (callAt 10 "q2" 8) :=
    ⟨⟨8, rfl, by decide⟩, callAt 0 "q1" 900, List.mem_cons_self, by decide +kernel⟩
  intro hexact
  have hflagged := hexact.mpr hsuspicious
  revert hflagged
  decide +kernel

end ResponseCacheWatch

end LocalSqlAgent
