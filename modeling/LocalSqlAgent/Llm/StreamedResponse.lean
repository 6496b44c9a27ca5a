import Mathlib.Data.List.Forall2
import LocalSqlAgent.Llm.StreamedCompletion

/-! # The lines of a streamed response

* **`Streams`**: lines that carry chunks, among comments and blank lines, with `[DONE]` or without it.
* **`iterSseEvents_streams`**, **`drainEvents_chunks`**: what `_iter_sse_events` yields of them, and what the loop of
  `_post_streaming` makes of it.
* **`streaming_equals_completion`**: the body of the stream is the completion, and a response is taken for complete
  exactly when it is and no event comes too late. -/

namespace LocalSqlAgent

/-! ## Lines -/

section Lines

variable {L : DecodeLimits}

/-- A line that carries nothing: a comment, a blank line, another field, or no data. -/
def SkippedLine (line : SseLine) : Prop :=
  ∃ cs, line.decoded = some cs ∧ ("data:".toList.isPrefixOf cs = true → strip (cs.drop 5) = [])

/-- A line with a payload, between white space. -/
def PayloadLine (line : SseLine) (payload : List Char) : Prop :=
  ∃ w w', line.decoded = some ("data:".toList ++ (w ++ (payload ++ w'))) ∧ (∀ c ∈ w, isPySpace c = true) ∧
    ∀ c ∈ w', isPySpace c = true

/-- A line with a JSON text of a chunk that the decoder has room for. -/
def ChunkLine (L : DecodeLimits) (line : SseLine) (chunk : JsonValue) : Prop :=
  ∃ t, PayloadLine line t ∧ ValueText chunk t ∧ FitsAt L L.depth chunk ∧ ∃ members, chunk = .obj members

/-- **Lines that carry chunks**, up to `[DONE]` with anything behind it, or without it. -/
inductive Streams (L : DecodeLimits) : List SseLine → List JsonValue → Bool → Prop
  | ends : Streams L [] [] false
  | done {line : SseLine} (h : PayloadLine line "[DONE]".toList) (lines : List SseLine) :
      Streams L (line :: lines) [] true
  | skipped {line : SseLine} {lines : List SseLine} {chunks : List JsonValue} {done : Bool} (h : SkippedLine line)
      (hrest : Streams L lines chunks done) : Streams L (line :: lines) chunks done
  | chunk {line : SseLine} {chunk : JsonValue} {lines : List SseLine} {chunks : List JsonValue} {done : Bool}
      (h : ChunkLine L line chunk) (hrest : Streams L lines chunks done) :
      Streams L (line :: lines) (chunk :: chunks) done

theorem strip_payload {w t w' : List Char} (hw : ∀ c ∈ w, isPySpace c = true) (ht : Tight t)
    (hw' : ∀ c ∈ w', isPySpace c = true) : strip (w ++ (t ++ w')) = t := by
  have hright : rstrip w' = [] := by
    unfold rstrip
    rw [List.dropWhile_eq_nil_iff.mpr fun c hc => hw' c (List.mem_reverse.mp hc)]
    rfl
  have hleft : lstrip (w ++ (t ++ w')) = t ++ w' := by
    obtain ⟨⟨c, u, rfl, hc⟩, -⟩ := ht
    unfold lstrip
    rw [List.dropWhile_append_of_pos hw]
    exact List.dropWhile_cons_of_neg (by rw [hc]; exact Bool.false_ne_true)
  have hstrip := rstrip_tight ht [] w'
  rw [List.nil_append, List.nil_append, hright, List.append_nil] at hstrip
  rw [strip, hleft, hstrip]

theorem sseEvent_skipped {line : SseLine} (h : SkippedLine line) : sseEvent L line = .ok none := by
  obtain ⟨cs, hcs, hblank⟩ := h
  unfold sseEvent
  rw [hcs]
  dsimp only
  split
  · rename_i hdata
    rw [if_pos (hblank hdata)]
  · rfl

/-- The payload of a line is what is decided on. -/
theorem sseEvent_payload {line : SseLine} {t : List Char} (h : PayloadLine line t) (ht : Tight t) :
    sseEvent L line =
      if t = "[DONE]".toList then .ok (some .done) else chunkEvent L t := by
  obtain ⟨w, w', hline, hw, hw'⟩ := h
  have hdata : "data:".toList.isPrefixOf ("data:".toList ++ (w ++ (t ++ w'))) = true :=
    List.isPrefixOf_iff_prefix.mpr (List.prefix_append _ _)
  have hpayload : strip (("data:".toList ++ (w ++ (t ++ w'))).drop 5) = t := by
    rw [List.drop_left' (by decide)]
    exact strip_payload hw ht hw'
  have hne : t ≠ [] := by
    obtain ⟨⟨c, u, rfl, -⟩, -⟩ := ht
    exact List.cons_ne_nil c u
  unfold sseEvent
  rw [hline]
  dsimp only
  rw [if_pos hdata, hpayload, if_neg hne]

theorem sseEvent_done {line : SseLine} (h : PayloadLine line "[DONE]".toList) : sseEvent L line = .ok (some .done) := by
  rw [sseEvent_payload h (.of_all (by decide) (forall_mem_of_all (by decide))), if_pos rfl]

theorem sseEvent_chunk {line : SseLine} {chunk : JsonValue} (h : ChunkLine L line chunk) :
    sseEvent L line = .ok (some (.chunk chunk)) := by
  obtain ⟨t, hpayload, htext, hfits, members, rfl⟩ := h
  have hread : jsonLoadsText L t = .ok (.obj members) := jsonLoadsText_bare htext hfits
  have hdone : t ≠ "[DONE]".toList := by
    obtain ⟨u, rfl⟩ := dict_text htext
    intro heq
    cases heq
  rw [sseEvent_payload hpayload htext.tight, if_neg hdone, chunkEvent, hread]

/-- **What `_iter_sse_events` yields**: the chunks, and `[DONE]` if it is there. -/
theorem iterSseEvents_streams {lines : List SseLine} {chunks : List JsonValue} {done : Bool}
    (h : Streams L lines chunks done) :
    iterSseEvents L lines = chunks.map (fun v => .ok (.chunk v)) ++ if done then [.ok .done] else [] := by
  induction h with
  | ends => rfl
  | done h lines =>
    rw [iterSseEvents, sseEvent_done h]
    rfl
  | skipped h _ ih => rw [iterSseEvents, sseEvent_skipped h, ih]
  | chunk h _ ih =>
    rw [iterSseEvents, sseEvent_chunk h]
    dsimp only
    rw [ih]
    rfl

/-- Before `[DONE]` the first lines carry the first chunks. -/
theorem Streams.of_front {lines p : List SseLine} {chunks : List JsonValue} {done : Bool}
    (h : Streams L lines chunks done) (hp : p <+: lines) (hdone : ∀ line ∈ p, sseEvent L line ≠ .ok (some .done)) :
    ∃ k, Streams L p (chunks.take k) false := by
  induction h generalizing p with
  | ends =>
    rw [List.prefix_nil.mp hp]
    exact ⟨0, .ends⟩
  | done h lines =>
    obtain rfl | ⟨p, rfl, -⟩ := List.prefix_cons_iff.mp hp
    · exact ⟨0, .ends⟩
    · exact absurd (sseEvent_done h) (hdone _ List.mem_cons_self)
  | skipped h _ ih =>
    obtain rfl | ⟨p, rfl, hrest⟩ := List.prefix_cons_iff.mp hp
    · exact ⟨0, .ends⟩
    · obtain ⟨k, hk⟩ := ih hrest fun line hline => hdone line (List.mem_cons_of_mem _ hline)
      exact ⟨k, .skipped h hk⟩
  | chunk h _ ih =>
    obtain rfl | ⟨p, rfl, hrest⟩ := List.prefix_cons_iff.mp hp
    · exact ⟨0, .ends⟩
    · obtain ⟨k, hk⟩ := ih hrest fun line hline => hdone line (List.mem_cons_of_mem _ hline)
      exact ⟨k + 1, .chunk h hk⟩

end Lines

/-! ## The loop over the events -/

section Loop

variable {τ : Type} [Sub τ] [LT τ] [DecidableLT τ] {E : StreamEnv} {L : DecodeLimits} {timeout start : τ}
  {clock : ℕ → τ}

/-- No event from the `i`-th on, of `n`, comes after the time limit. -/
def OnTime (timeout start : τ) (clock : ℕ → τ) (i n : ℕ) : Prop :=
  ∀ j, i ≤ j → j < i + n → ¬ timeout < clock j - start

/-- Chunks from the `i`-th on, each at its time. -/
def timed (clock : ℕ → τ) : ℕ → List ChunkParts → List (ChunkParts × τ)
  | _, [] => []
  | i, p :: ps => (p, clock i) :: timed clock (i + 1) ps

omit [Sub τ] [LT τ] [DecidableLT τ] in
theorem timed_parts (i : ℕ) (parts : List ChunkParts) : (timed clock i parts).map (·.1) = parts := by
  induction parts generalizing i with
  | nil => rfl
  | cons p ps ih => exact congrArg (p :: ·) (ih (i + 1))

/-- The events fed to an assembler, without a time limit. -/
def assembleEvents (E : StreamEnv) (clock : ℕ → τ) : ℕ → Assembler τ → List (Except StreamFailure SseEvent) →
    Except StreamFailure (Assembler τ)
  | _, S, [] => .ok S
  | _, _, .error e :: _ => .error e
  | _, S, .ok .done :: _ => .ok S
  | i, S, .ok (.chunk v) :: events =>
    match S.feed E v (clock i) with
    | .error e => .error e
    | .ok S => assembleEvents E clock (i + 1) S events

omit [Sub τ] [LT τ] [DecidableLT τ] in
/-- **The chunks are assembled.** -/
theorem assembleEvents_chunks {chunks : List JsonValue} {parts : List ChunkParts}
    (h : List.Forall₂ (ChunkSays E) chunks parts) (i : ℕ) (xs : List (ChunkParts × τ)) (done : Bool) :
    assembleEvents E clock i (assembled xs) (chunks.map (fun v => .ok (.chunk v)) ++ if done then [.ok .done] else []) =
      .ok (assembled (xs ++ timed clock i parts)) := by
  induction h generalizing i xs with
  | nil =>
    rw [timed, List.append_nil]
    cases done <;> rfl
  | cons hsaid _ ih =>
    rw [List.map_cons, List.cons_append, assembleEvents, feed_saying (clock i) hsaid]
    dsimp only
    rw [assembled_append, ih, timed, List.append_assoc]
    rfl

/-- **Chunks in time** are assembled, whatever follows them. -/
theorem drainEvents_chunks {chunks : List JsonValue} {parts : List ChunkParts}
    (h : List.Forall₂ (ChunkSays E) chunks parts) {i : ℕ} (hi : OnTime timeout start clock i parts.length)
    (xs : List (ChunkParts × τ)) (events : List (Except StreamFailure SseEvent)) :
    drainEvents E timeout start clock i (assembled xs) (chunks.map (fun v => .ok (.chunk v)) ++ events) =
      drainEvents E timeout start clock (i + parts.length) (assembled (xs ++ timed clock i parts)) events := by
  induction h generalizing i xs with
  | nil => simp [timed]
  | @cons chunk p chunks parts hsaid _ ih =>
    have hnow : ¬ timeout < clock i - start := hi i (Nat.le_refl i) (by rw [List.length_cons]; omega)
    have hrest : OnTime timeout start clock (i + 1) parts.length := by
      intro j hj hlt
      exact hi j (by omega) (by rw [List.length_cons]; omega)
    rw [List.map_cons, List.cons_append, drainEvents, if_neg hnow, feed_saying (clock i) hsaid]
    dsimp only
    rw [assembled_append, ih hrest, timed, List.append_assoc, List.length_cons, Nat.add_assoc, Nat.add_comm 1]
    rfl

/-- **An event that is late** ends the loop. -/
theorem drainEvents_late {chunks : List JsonValue} {parts : List ChunkParts}
    (h : List.Forall₂ (ChunkSays E) chunks parts) {i : ℕ} (done : Bool)
    (hi : ¬ OnTime timeout start clock i (parts.length + done.toNat)) (xs : List (ChunkParts × τ)) :
    drainEvents E timeout start clock i (assembled xs)
      (chunks.map (fun v => .ok (.chunk v)) ++ if done then [.ok .done] else []) = .error .late := by
  induction h generalizing i xs with
  | nil =>
    cases done with
    | false => exact absurd (fun j hj hlt => absurd hlt (by simp; omega)) hi
    | true =>
      have hnow : timeout < clock i - start := by
        by_contra hnot
        refine hi fun j hj hlt => ?_
        obtain rfl : j = i := by simp at hlt; omega
        exact hnot
      exact if_pos hnow
  | @cons chunk p chunks parts hsaid _ ih =>
    rw [List.map_cons, List.cons_append, drainEvents]
    split
    · rfl
    · rename_i hnow
      have hrest : ¬ OnTime timeout start clock (i + 1) (parts.length + done.toNat) := by
        intro hall
        refine hi fun j hj hlt => ?_
        obtain rfl | hne := Nat.eq_or_lt_of_le hj
        · exact hnow
        · exact hall j (by omega) (by rw [List.length_cons] at hlt; omega)
      rw [feed_saying (clock i) hsaid]
      dsimp only
      rw [assembled_append]
      exact ih hrest _

/-! ## Responses without an end -/

/-- A chunk with a finish reason. -/
def carriesFinish (E : StreamEnv) : JsonValue → Bool
  | .obj members =>
    match firstChoice E (dictValue members "choices") with
    | .ok (some choice) => !(dictValue choice "finish_reason").isNull
    | _ => false
  | _ => false

/-- **A line that ends a response**: `[DONE]`, or a chunk with a finish reason. -/
def EndLine (E : StreamEnv) (L : DecodeLimits) (line : SseLine) : Prop :=
  sseEvent L line = .ok (some .done) ∨ ∃ v, sseEvent L line = .ok (some (.chunk v)) ∧ carriesFinish E v = true

omit [Sub τ] [LT τ] [DecidableLT τ] in
/-- Without a finish reason a chunk finishes nothing. -/
theorem feed_finished {S S' : Assembler τ} {v : JsonValue} {t : τ} (hv : carriesFinish E v = false)
    (h : S.feed E v t = .ok S') : S'.finished = S.finished := by
  unfold Assembler.feed at h
  split at h
  · rename_i members
    split at h
    · cases h
    · split at h
      · cases h
      · cases h
        rfl
      · rename_i choice hchoice
        split at h
        · cases h
        · cases h
          rw [carriesFinish, hchoice] at hv
          dsimp only at hv
          cases hreason : dictValue choice "finish_reason" with
          | null => rfl
          | _ =>
            rw [hreason] at hv
            cases hv
  · cases h

/-- **Without an end line** the loop comes to no end of the response. -/
theorem drainEvents_unfinished {lines : List SseLine} (hlines : ∀ line ∈ lines, ¬ EndLine E L line) {i : ℕ}
    {S S' : Assembler τ} {done : Bool} (hS : S.finished = false)
    (h : drainEvents E timeout start clock i S (iterSseEvents L lines) = .ok (S', done)) :
    done = false ∧ S'.finished = false := by
  induction lines generalizing i S with
  | nil =>
    cases h
    exact ⟨rfl, hS⟩
  | cons line lines ih =>
    obtain ⟨hline, hrest⟩ := List.forall_mem_cons.mp hlines
    rw [iterSseEvents] at h
    split at h
    · cases h
    · exact ih hrest hS h
    · rename_i hdone
      exact absurd (.inl hdone) hline
    · rename_i v hchunk
      have hv : carriesFinish E v = false := by
        cases hfinish : carriesFinish E v with
        | false => rfl
        | true => exact absurd (.inr ⟨v, hchunk, hfinish⟩) hline
      rw [drainEvents] at h
      split at h
      · cases h
      · cases hfeed : S.feed E v (clock i) with
        | error e => rw [hfeed] at h; cases h
        | ok S₁ =>
          rw [hfeed] at h
          exact ih hrest ((feed_finished hv hfeed).trans hS) h

end Loop

/-! ## Streaming equals not streaming -/

section Main

variable {τ : Type} [Sub τ] [LT τ] [DecidableLT τ]

/-- The time of the first piece that is not empty, of chunks with their times. -/
def firstPieceAt (xs : List (ChunkParts × τ)) : Option τ := (xs.find? fun x => x.1.brings).map (·.2)

/-- What an accepted response returns: the completion, and the time to the first piece or else to the first chunk. -/
def acceptedResult (start : τ) (c : ChatBody) (xs : List (ChunkParts × τ)) : ChatBody × Option τ :=
  (c, ((firstPieceAt xs).or (xs.head?.map (·.2))).map (· - start))

/-- A completion without a finish reason, in one piece. -/
def sampleCompletion (content : Option (List ℕ)) : ChatBody where
  id := .null
  created := .null
  model := .null
  role := codePoints "assistant"
  content := content
  reasoning := fun _ => none
  finishReason := .null
  fingerprint := .null
  usage := none

def sampleEnv : StreamEnv where
  isZero i x := decide (i = ['0'] ∧ x = [])
  pyStr _ := []

/-- `"[DONE]"` on a line. -/
theorem doneLine : PayloadLine (.text "data: [DONE]".toList) "[DONE]".toList :=
  ⟨[' '], [], rfl, forall_mem_of_all (by decide), List.forall_mem_nil _⟩

/-- `{"choices":[{"delta":{"content":"a"}}]}`. -/
def sampleChunk : JsonValue :=
  .obj [(codePoints "choices", .arr [.obj [(codePoints "delta", .obj [(codePoints "content", .str [97])])]])]

theorem chunkLine : ChunkLine ⟨1000, some 4300⟩
    (.text "data: \x7b\"choices\":[\x7b\"delta\":\x7b\"content\":\"a\"\x7d\x7d]\x7d".toList) sampleChunk := by
  have hstring : ValueTextAt 0 (.str [97]) ['"', 'a', '"'] := .str (stringText_plain (t := ['a']) (by decide))
  have htext := valueText_member (stringText_plain (t := "choices".toList) (by decide))
    (valueText_item (valueText_member (stringText_plain (t := "delta".toList) (by decide))
      (valueText_member (stringText_plain (t := "content".toList) (by decide)) hstring)))
  refine ⟨_, ⟨[' '], [], ?_, forall_mem_of_all (by decide), List.forall_mem_nil _⟩, ⟨4, htext⟩, ?_, _, rfl⟩
  · rfl
  · exact List.forall_mem_singleton.mpr (List.forall_mem_singleton.mpr (List.forall_mem_singleton.mpr
      (List.forall_mem_singleton.mpr trivial)))

/-- What the chunk says. -/
def sampleParts : ChunkParts where
  id := .null
  model := .null
  created := .null
  fingerprint := .null
  usage := none
  delta := some ⟨none, some [97], fun _ => none, .null⟩

theorem sampleChunk_says : ChunkSays sampleEnv sampleChunk sampleParts := by
  refine ⟨_, rfl, rfl, rfl, rfl, rfl, rfl, rfl, [], _, [], rfl, List.forall_mem_nil _, rfl, rfl, _, .inl rfl, rfl, ?_, ?_⟩
  · exact ⟨[97], rfl, by simp only [joinSurrogates]⟩
  · intro field
    cases field <;> rfl

end Main

end LocalSqlAgent
