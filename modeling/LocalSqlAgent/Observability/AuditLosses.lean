import LocalSqlAgent.Llm.JsonAnswer
import LocalSqlAgent.Llm.StreamAssembler
import LocalSqlAgent.Observability.AuditWrites

/-! # What the audit log loses

* **`Accounted`**: no call has raised, every record written whole is read back while its file is there, and
  `audit_write_failures` is the number of the others.
* **`KeepsAccount`**: a call that encodes, whose write stops between two characters and before the newline,
  and that starts on a line of its own.
* **`accounted_of_run`**: a run of such calls is accounted for.
* **`auditTrail_not_accounted`**: a line behind a partial one, a text with an unpaired surrogate, a file that is
  refused after the line is in it. -/

namespace LocalSqlAgent

universe u

variable {L : DecodeLimits}

/-! ## The line of a record -/

/-- **The line of a record**: a JSON text of it without a newline inside. -/
structure LineOf (payload : AuditPayload L) (t : List Char) : Prop where
  chars : charsOf payload.line = some (t ++ ['\n'])
  text : ValueText (.obj payload.members) t
  oneLine : OneLine t

/-- **Without surrogates** a record has a line. -/
theorem AuditPayload.exists_lineOf {payload : AuditPayload L}
    (h : ∀ n ∈ textPoints (.obj payload.members), ¬ IsSurrogate n) : ∃ t, LineOf payload t := by
  obtain ⟨t, ht, htext, hline⟩ := jsonDumpsText_textAt payload.written fun n hn =>
    isValidChar_of_not_surrogate (payload.points n hn) (h n hn)
  refine ⟨t, ?_, ⟨_, htext⟩, hline⟩
  rw [AuditPayload.line, ht, ← charsOf_map_toNat (t ++ ['\n']), List.map_append]
  rfl

namespace LineOf

variable {payload : AuditPayload L} {t : List Char}

theorem lineBytes (h : LineOf payload t) : payload.lineBytes = some (utf8Bytes (t ++ ['\n'])) := by
  rw [AuditPayload.lineBytes, h.chars, Option.map_some]

theorem newline_notMem (h : LineOf payload t) : '\n' ∉ t := fun hmem => absurd (h.oneLine _ hmem) (by decide)

theorem return_notMem (h : LineOf payload t) : '\r' ∉ t := fun hmem => absurd (h.oneLine _ hmem) (by decide)

/-- Nothing to strip on the left of what has been written. -/
theorem lstrip_eq (h : LineOf payload t) {p : List Char} (hp : p <+: t ++ ['\n']) : lstrip p = p := by
  obtain ⟨⟨c, u, rfl, hc⟩, -⟩ := h.text.tight
  obtain rfl | ⟨p, rfl, -⟩ := List.prefix_cons_iff.mp hp
  · rfl
  · exact List.dropWhile_cons_of_neg (by rw [hc]; exact Bool.false_ne_true)

/-- A whole line is read. -/
theorem lineRecords_whole (h : LineOf payload t) :
    lineRecords L (t ++ ['\n']) = .ok [.obj payload.members] := by
  have hstrip : strip (t ++ ['\n']) = t := by
    rw [strip, h.lstrip_eq List.prefix_rfl]
    have htight := rstrip_tight h.text.tight [] ['\n']
    rwa [show rstrip ['\n'] = [] by decide, List.append_nil] at htight
  have hloads := jsonLoadsText_bare h.text payload.written.boundedAt.fitsAt
  have hne : t ≠ [] := by
    obtain ⟨⟨c, u, rfl, -⟩, -⟩ := h.text.tight
    exact List.cons_ne_nil c u
  rw [lineRecords, hstrip, if_neg hne, hloads]

/-- **A line that is cut off** does not stop the reading. -/
theorem lineRecords_cut (h : LineOf payload t) {p : List Char} (hp : p <+: t) :
    ∃ records, lineRecords L p = .ok records := by
  have hpre : strip p <+: t := by
    rw [strip, h.lstrip_eq (hp.trans (List.prefix_append _ _))]
    exact (rstrip_front p).trans hp
  unfold lineRecords
  dsimp only
  split
  · exact ⟨_, rfl⟩
  · by_cases heq : strip p = t
    · rw [heq, jsonLoadsText_bare h.text payload.written.boundedAt.fitsAt]
      exact ⟨_, rfl⟩
    · rw [jsonLoadsText_cut h.text payload.written.boundedAt hpre heq]
      exact ⟨_, rfl⟩

end LineOf

/-! ## Tidy files -/

/-- A line that is in its file to the newline. -/
def Chunk.Complete (c : Chunk L) : Prop := ∃ t, LineOf c.payload t ∧ c.bytes = utf8Bytes (t ++ ['\n'])

/-- A line that stops between two characters. -/
def Chunk.Partial (c : Chunk L) : Prop := ∃ t p, LineOf c.payload t ∧ p <+: t ∧ c.bytes = utf8Bytes p

/-- **A tidy file**: whole lines, and behind them at most one that is partial. -/
def Tidy (chunks : List (Chunk L)) : Prop :=
  ∃ lines tail, chunks = lines ++ tail ∧ (∀ c ∈ lines, c.Complete) ∧
    (tail = [] ∨ ∃ c, tail = [c] ∧ c.Partial)

theorem Chunk.Complete.whole {c : Chunk L} (h : c.Complete) : c.Whole := by
  obtain ⟨t, hline, hbytes⟩ := h
  rw [Chunk.Whole, hline.lineBytes, hbytes]

theorem utf8Bytes_inj {s t : List Char} (h : utf8Bytes s = utf8Bytes t) : s = t := by
  have hs := utf8Text_utf8Bytes s
  rw [h, utf8Text_utf8Bytes] at hs
  exact (Option.some_inj.mp hs).symm

theorem Chunk.Partial.not_whole {c : Chunk L} (h : c.Partial) : ¬ c.Whole := by
  obtain ⟨t, p, hline, hp, hbytes⟩ := h
  intro hwhole
  rw [Chunk.Whole, hline.lineBytes, hbytes] at hwhole
  have heq := utf8Bytes_inj (Option.some_inj.mp hwhole)
  have hlength := hp.length_le
  rw [← heq, List.length_append, List.length_singleton] at hlength
  omega

theorem tidy_nil : Tidy ([] : List (Chunk L)) := ⟨[], [], rfl, List.forall_mem_nil _, .inl rfl⟩

/-- A file that does not end in a partial line has whole lines only. -/
theorem Tidy.complete {chunks : List (Chunk L)} (h : Tidy chunks) (hlast : ∀ c ∈ chunks.getLast?, c.Whole) :
    ∀ c ∈ chunks, c.Complete := by
  obtain ⟨lines, tail, rfl, hlines, rfl | ⟨c, rfl, hpartial⟩⟩ := h
  · rwa [List.append_nil]
  · rw [List.getLast?_append, List.getLast?_singleton] at hlast
    exact absurd (hlast c rfl) hpartial.not_whole

/-- The records written whole to a file. -/
def wholeRecords (chunks : List (Chunk L)) : List JsonValue :=
  (chunks.filter fun c => c.Whole).map fun c => .obj c.payload.members

/-- The texts of whole lines. -/
theorem exists_texts {lines : List (Chunk L)} (h : ∀ c ∈ lines, c.Complete) :
    ∃ ts, fileBytes lines = utf8Bytes (ts.flatMap fun t => t ++ ['\n']) ∧
      List.Forall₂ (fun c t => LineOf c.payload t) lines ts := by
  induction lines with
  | nil => exact ⟨[], rfl, .nil⟩
  | cons c lines ih =>
    obtain ⟨t, hline, hbytes⟩ := h c List.mem_cons_self
    obtain ⟨ts, hts, hlines⟩ := ih fun b hb => h b (List.mem_cons_of_mem _ hb)
    refine ⟨t :: ts, ?_, .cons hline hlines⟩
    rw [fileBytes, List.flatMap_cons, List.flatMap_cons, utf8Bytes_append, hbytes]
    exact congrArg _ hts

/-- Whole lines are read, and what is behind them. -/
theorem concatRecords_lines {lines : List (Chunk L)} {ts : List (List Char)}
    (h : List.Forall₂ (fun c t => LineOf c.payload t) lines ts) {rest : List (List Char)} {records : List JsonValue}
    (hrest : concatRecords (lineRecords L) rest = .ok records) :
    concatRecords (lineRecords L) (ts.map (fun t => t ++ ['\n']) ++ rest) =
      .ok (lines.map (fun c => .obj c.payload.members) ++ records) := by
  induction h with
  | nil => exact hrest
  | cons hline _ ih =>
    rw [List.map_cons, List.cons_append, concatRecords, hline.lineRecords_whole]
    dsimp only
    rw [ih]
    rfl

/-- No newline in the texts of lines. -/
theorem forall₂_notMem {lines : List (Chunk L)} {ts : List (List Char)}
    (h : List.Forall₂ (fun c t => LineOf c.payload t) lines ts) : ∀ t ∈ ts, '\n' ∉ t ∧ '\r' ∉ t := by
  induction h with
  | nil => exact List.forall_mem_nil _
  | cons hline _ ih => exact List.forall_mem_cons.mpr ⟨⟨hline.newline_notMem, hline.return_notMem⟩, ih⟩

/-- Whole lines and a rest that is read. -/
theorem fileRecords_lines {lines : List (Chunk L)} (h : ∀ c ∈ lines, c.Complete) {p : List Char}
    (hp : '\n' ∉ p ∧ '\r' ∉ p) (hread : ∃ records, lineRecords L p = .ok records) :
    ∃ records, fileRecords L (fileBytes lines ++ utf8Bytes p) = .ok records ∧
      (lines.map fun c => JsonValue.obj c.payload.members).Sublist records := by
  obtain ⟨ts, hts, hlines⟩ := exists_texts h
  have hclean := forall₂_notMem hlines
  have hreturn : '\r' ∉ (ts.flatMap fun t => t ++ ['\n']) ++ p := by
    intro hmem
    obtain hmem | hmem := List.mem_append.mp hmem
    · obtain ⟨t, ht, hmem⟩ := List.mem_flatMap.mp hmem
      obtain hmem | hmem := List.mem_append.mp hmem
      · exact (hclean t ht).2 hmem
      · exact absurd (List.mem_singleton.mp hmem) (by decide)
    · exact hp.2 hmem
  obtain ⟨records, hrest⟩ : ∃ records, concatRecords (lineRecords L) (if p = [] then [] else [p]) = .ok records := by
    obtain ⟨records, hrecords⟩ := hread
    split
    · exact ⟨[], rfl⟩
    · refine ⟨records ++ [], ?_⟩
      rw [concatRecords, hrecords]
      rfl
  refine ⟨_, ?_, List.sublist_append_left _ records⟩
  rw [fileRecords, hts, ← utf8Bytes_append, utf8Text_utf8Bytes]
  dsimp only
  rw [universalNewlines_eq hreturn, fileLines_lines (fun t ht => (hclean t ht).1) hp.1]
  exact concatRecords_lines hlines hrest

/-- **A tidy file is read**, with every record written whole. -/
theorem Tidy.fileRecords {chunks : List (Chunk L)} (h : Tidy chunks) :
    ∃ records, fileRecords L (fileBytes chunks) = .ok records ∧ (wholeRecords chunks).Sublist records := by
  obtain ⟨lines, tail, rfl, hlines, htail⟩ := h
  have hwhole : lines.filter (fun c => c.Whole) = lines :=
    List.filter_eq_self.mpr fun c hc => decide_eq_true (hlines c hc).whole
  have hrecords : wholeRecords (lines ++ tail) = lines.map fun c => .obj c.payload.members := by
    unfold wholeRecords
    rw [List.filter_append, hwhole]
    obtain rfl | ⟨c, rfl, hpartial⟩ := htail
    · rw [List.filter_nil, List.append_nil]
    · rw [List.filter_cons_of_neg (by simpa using hpartial.not_whole), List.filter_nil, List.append_nil]
  rw [hrecords, fileBytes, List.flatMap_append]
  obtain rfl | ⟨c, rfl, t, p, hline, hp, hbytes⟩ := htail
  · exact fileRecords_lines (p := []) hlines ⟨List.not_mem_nil, List.not_mem_nil⟩ ⟨[], rfl⟩
  · rw [List.flatMap_singleton, hbytes]
    exact fileRecords_lines hlines ⟨fun hmem => hline.newline_notMem (hp.subset hmem),
      fun hmem => hline.return_notMem (hp.subset hmem)⟩ (hline.lineRecords_cut hp)

/-- Texts that are read are read one after the other. -/
theorem concatRecords_sublist {α : Type u} {records : α → Except ReadFailure (List JsonValue)}
    {expected : α → List JsonValue} {as : List α}
    (h : ∀ a ∈ as, ∃ here, records a = .ok here ∧ (expected a).Sublist here) :
    ∃ all, concatRecords records as = .ok all ∧ (as.flatMap expected).Sublist all := by
  induction as with
  | nil => exact ⟨[], rfl, List.Sublist.refl _⟩
  | cons a as ih =>
    obtain ⟨here, hread, hhere⟩ := h a List.mem_cons_self
    obtain ⟨later, hlater, hsublist⟩ := ih fun b hb => h b (List.mem_cons_of_mem _ hb)
    refine ⟨here ++ later, ?_, ?_⟩
    · rw [concatRecords, hread]
      dsimp only
      rw [hlater]
      rfl
    · rw [List.flatMap_cons]
      exact hhere.append hsublist

/-! ## Runs -/

/-- **Accounted for**: what `save_audit_record` and `audit_write_failures` promise. -/
structure Accounted (place : LogPlace) (trail : AuditTrail L) : Prop where
  /-- No call has raised. -/
  returns : ∀ call ∈ trail.saved, call.raised = false
  /-- The log is read, with every record written whole whose file is there. -/
  yielded : ∃ records, iterAuditRecords trail.files (resolveLogPaths place.path trail.files) = .ok records ∧
    ((resolveLogPaths place.path trail.files).flatMap fun name =>
      wholeRecords ((trail.files.lookup name).getD [])).Sublist records
  /-- The failures counted are the records that were not written whole. -/
  counted : trail.writeFailures = trail.saved.countP fun call => !call.whole

/-- **A call that keeps the account.** -/
structure KeepsAccount (place : LogPlace) (trail : AuditTrail L) (call : AuditCall L) : Prop where
  /-- Its text has no unpaired surrogate. -/
  encodable : ∀ n ∈ textPoints (.obj call.payload.members), ¬ IsSurrogate n
  /-- A write that is refused has stopped between two characters of the line. -/
  cut : ∀ n, call.fault = .writing n → ∃ cs k, charsOf call.payload.line = some cs ∧ k < cs.length ∧
    n = (utf8Bytes (cs.take k)).length
  /-- The mode of a new file is not refused. -/
  mode : call.fault = .permitting → place.posix = false ∨
    (place.rotates trail.files call = false ∧ (trail.files.lookup place.path).isSome = true)
  /-- What reaches the file starts a line. -/
  lineStart : call.fault ∉ [.preparing, .opening, .writing 0] → place.rotates trail.files call = true ∨
    ∀ c ∈ (place.active trail.files).getLast?, c.Whole

/-- Every file is tidy. -/
def AllTidy (files : LogDirectory (Chunk L)) : Prop := ∀ name chunks, files.lookup name = some chunks → Tidy chunks

theorem Tidy.concat {chunks : List (Chunk L)} (h : ∀ c ∈ chunks, c.Complete) {c : Chunk L}
    (hc : c.Complete ∨ c.Partial) : Tidy (chunks ++ [c]) := by
  obtain hc | hc := hc
  · refine ⟨chunks ++ [c], [], (List.append_nil _).symm, ?_, .inl rfl⟩
    exact List.forall_mem_append.mpr ⟨h, List.forall_mem_singleton.mpr hc⟩
  · exact ⟨chunks, [c], rfl, h, .inr ⟨c, rfl, hc⟩⟩

theorem AllTidy.active {place : LogPlace} {files : LogDirectory (Chunk L)} (h : AllTidy files) :
    Tidy (place.active files) := by
  unfold LogPlace.active
  cases hlookup : files.lookup place.path with
  | none => exact tidy_nil
  | some chunks => exact h _ chunks hlookup

theorem AllTidy.applyOps {files : LogDirectory (Chunk L)} (h : AllTidy files) (ops : List FileOp) :
    AllTidy (applyOps ops files) := by
  intro name chunks hlookup
  obtain ⟨name', hbefore⟩ := lookup_applyOps hlookup
  exact h name' chunks hbefore

/-- **A write** to a file of whole lines. -/
theorem AllTidy.appendBytes {place : LogPlace} {files : LogDirectory (Chunk L)} (h : AllTidy files)
    {payload : AuditPayload L} {bytes : List UInt8}
    (hnew : bytes ≠ [] → (∀ c ∈ place.active files, c.Complete) ∧
      ((⟨payload, bytes⟩ : Chunk L).Complete ∨ (⟨payload, bytes⟩ : Chunk L).Partial)) :
    AllTidy (place.appendBytes files payload bytes) := by
  intro name chunks hlookup
  obtain ⟨-, rfl⟩ | hbefore := place.lookup_appendBytes hlookup
  · split
    · rw [List.append_nil]
      exact h.active
    · rename_i hne
      exact Tidy.concat (hnew hne).1 (hnew hne).2
  · exact h name chunks hbefore

section Step

variable {place : LogPlace} {trail : AuditTrail L} {call : AuditCall L} {t : List Char}

theorem rotates_eq (ht : LineOf call.payload t) : place.rotates trail.files call =
    place.needsRotation trail.files call.maxBytes (utf8Bytes (t ++ ['\n'])) := by
  rw [LogPlace.rotates, ht.lineBytes]

/-- A file that the line does not go behind a partial one in. -/
theorem complete_of_lineStart (htidy : AllTidy trail.files) (ht : LineOf call.payload t)
    (hstart : place.rotates trail.files call = true ∨ ∀ c ∈ (place.active trail.files).getLast?, c.Whole) :
    ∀ c ∈ place.active (applyOps (place.opsBefore trail.files call (utf8Bytes (t ++ ['\n']))) trail.files),
      c.Complete := by
  rw [rotates_eq ht] at hstart
  unfold LogPlace.opsBefore
  split
  · rw [LogPlace.active, place.active_rotated]
    exact List.forall_mem_nil _
  · rename_i hno
    exact htidy.active.complete (hstart.resolve_left hno)

/-- What a write that is refused leaves. -/
theorem take_of_cut {n : ℕ} (ht : LineOf call.payload t)
    (hcut : ∃ cs k, charsOf call.payload.line = some cs ∧ k < cs.length ∧ n = (utf8Bytes (cs.take k)).length) :
    (∃ p, p <+: t ∧ (utf8Bytes (t ++ ['\n'])).take n = utf8Bytes p) ∧ n < (utf8Bytes (t ++ ['\n'])).length := by
  obtain ⟨cs, k, hcs, hk, rfl⟩ := hcut
  obtain rfl : t ++ ['\n'] = cs := Option.some_inj.mp (ht.chars.symm.trans hcs)
  have hsplit : utf8Bytes (t ++ ['\n']) =
      utf8Bytes ((t ++ ['\n']).take k) ++ utf8Bytes ((t ++ ['\n']).drop k) := by
    rw [← utf8Bytes_append, List.take_append_drop]
  rw [List.length_append, List.length_singleton] at hk
  constructor
  · refine ⟨(t ++ ['\n']).take k, ?_, ?_⟩
    · rw [List.take_append_of_le_length (by omega)]
      exact List.take_prefix k t
    · rw [hsplit, List.take_left']
      rfl
  · have hrest : (t ++ ['\n']).drop k ≠ [] := by
      rw [Ne, List.drop_eq_nil_iff, List.length_append, List.length_singleton]
      omega
    have hpos := List.length_pos_iff.mpr (utf8Bytes_ne_nil hrest)
    rw [hsplit, List.length_append]
    omega

/-- Tidy files, nothing raised, and a failure reported exactly when the line is not whole. -/
structure KeptAppend (appended : Appended L) : Prop where
  tidy : AllTidy appended.files
  encoded : appended.ended ≠ .encodeError
  counted : appended.ended = .osError ↔ appended.whole = false

theorem KeptAppend.refused {files : LogDirectory (Chunk L)} (h : AllTidy files) : KeptAppend ⟨.osError, files, false⟩ where
  tidy := h
  encoded := AppendEnd.noConfusion
  counted := iff_of_true rfl rfl

theorem KeptAppend.written {files : LogDirectory (Chunk L)} (h : AllTidy files) : KeptAppend ⟨.returned, files, true⟩ where
  tidy := h
  encoded := AppendEnd.noConfusion
  counted := iff_of_false AppendEnd.noConfusion Bool.noConfusion

/-- **One call that keeps the account.** -/
theorem appendJsonl_kept (htidy : AllTidy trail.files) (hcall : KeepsAccount place trail call) :
    KeptAppend (place.appendJsonl trail.files call) := by
  obtain ⟨t, ht⟩ := AuditPayload.exists_lineOf hcall.encodable
  have hcomplete : (⟨call.payload, utf8Bytes (t ++ ['\n'])⟩ : Chunk L).Complete := ⟨t, ht, rfl⟩
  unfold LogPlace.appendJsonl
  rw [ht.lineBytes]
  dsimp only
  split
  · exact .refused htidy
  · rename_i hprepared
    cases hstop : LogPlace.stoppedAt call.fault
        (place.opsBefore trail.files call (utf8Bytes (t ++ ['\n']))) with
    | some done => exact .refused (htidy.applyOps _)
    | none =>
      have hrotated := htidy.applyOps (place.opsBefore trail.files call (utf8Bytes (t ++ ['\n'])))
      have hlines := fun hfault => complete_of_lineStart htidy ht (hcall.lineStart hfault)
      dsimp only
      unfold LogPlace.writeLine
      cases hfault : call.fault with
      | never => exact .written (hrotated.appendBytes fun _ => ⟨hlines (by rw [hfault]; decide), .inl hcomplete⟩)
      | preparing => exact absurd hfault hprepared
      | rotating done =>
        exact .written (hrotated.appendBytes fun _ => ⟨hlines (by rw [hfault]; simp), .inl hcomplete⟩)
      | opening => exact .refused hrotated
      | writing n =>
        obtain ⟨⟨p, hp, htake⟩, hn⟩ := take_of_cut ht (hcall.cut n hfault)
        dsimp only
        rw [decide_eq_false (by omega)]
        refine .refused (hrotated.appendBytes fun hne => ⟨hlines ?_, .inr ⟨t, p, ht, hp, htake⟩⟩)
        rw [hfault]
        cases n with
        | zero => exact absurd List.take_zero hne
        | succ n => simp
      | permitting =>
        -- the mode is not set: there are none, or the file was there
        have hunset : (!((applyOps (place.opsBefore trail.files call (utf8Bytes (t ++ ['\n'])))
            trail.files).lookup place.path).isSome && place.posix) = false := by
          obtain hposix | ⟨hrotates, hexists⟩ := hcall.mode hfault
          · rw [hposix, Bool.and_false]
          · rw [rotates_eq ht] at hrotates
            unfold LogPlace.opsBefore
            rw [hrotates, if_neg Bool.false_ne_true]
            show (!(trail.files.lookup place.path).isSome && place.posix) = false
            rw [hexists]
            rfl
        dsimp only
        rw [hunset, if_neg Bool.false_ne_true]
        exact .written (hrotated.appendBytes fun _ => ⟨hlines (by rw [hfault]; decide), .inl hcomplete⟩)

end Step

/-- What calls that keep the account keep. -/
structure KeptTidy (trail : AuditTrail L) : Prop where
  tidy : AllTidy trail.files
  returns : ∀ call ∈ trail.saved, call.raised = false
  counted : trail.writeFailures = trail.saved.countP fun call => !call.whole

theorem KeptTidy.accounted {place : LogPlace} {trail : AuditTrail L} (h : KeptTidy trail) : Accounted place trail where
  returns := h.returns
  counted := h.counted
  yielded := concatRecords_sublist fun name _ => by
    cases hlookup : trail.files.lookup name with
    | none => exact tidy_nil.fileRecords
    | some chunks => exact (h.tidy name chunks hlookup).fileRecords

/-- **One step.** -/
theorem KeptTidy.step {place : LogPlace} {trail : AuditTrail L} {call : AuditCall L} (h : KeptTidy trail)
    (hcall : KeepsAccount place trail call) : KeptTidy (saveAuditRecord place trail call) := by
  obtain ⟨htidy, hencoded, hcounted⟩ := appendJsonl_kept h.tidy hcall
  refine ⟨htidy, ?_, ?_⟩
  · exact List.forall_mem_append.mpr ⟨h.returns, List.forall_mem_singleton.mpr (decide_eq_false hencoded)⟩
  · show _ + _ = List.countP _ (_ ++ [_])
    rw [List.countP_append, List.countP_singleton, h.counted]
    congr 1
    cases hwhole : (place.appendJsonl trail.files call).whole with
    | false => rw [if_pos (hcounted.mpr hwhole)]; rfl
    | true =>
      rw [if_neg fun hended => Bool.false_ne_true ((hcounted.mp hended).symm.trans hwhole)]
      rfl

/-- The limits of an interpreter. -/
def auditLimits : DecodeLimits := ⟨900, some 4300⟩

/-- Members that are null. -/
def nullMembers (keys : List String) : List (List ℕ × JsonValue) := keys.map fun key => (codePoints key, .null)

/-- `as_dict` of a record with a question and a statement. -/
def exampleMembers (question : List ℕ) : List (List ℕ × JsonValue) :=
  [(codePoints "timestamp", .str (codePoints "2026-08-26T12:00:00")), (codePoints "request_id", .str (codePoints "r_1")),
    (codePoints "question", .str question), (codePoints "generated_sql", .str (codePoints "SELECT 1")),
    (codePoints "guard", .obj [(codePoints "verdict", .str (codePoints "allowed"))]),
    (codePoints "row_count", .number ['0'] [])] ++
  nullMembers ["tier", "error_code", "error_message"] ++ [(codePoints "timings", .obj [])] ++
  nullMembers ["llm", "columns", "principal_id", "resolved_columns", "session_id", "turn_id", "config_version_id",
    "assumptions", "datasource", "datasource_selection"]

theorem writtenAt_example (question : List ℕ) :
    WrittenAt auditLimits auditLimits.depth (.obj (exampleMembers question)) := by
  have hnull : ∀ keys, ∀ m ∈ nullMembers keys, WrittenAt auditLimits 899 m.2 := fun keys m hm => by
    obtain ⟨key, -, rfl⟩ := List.mem_map.mp hm
    trivial
  have hzero : WrittenAt auditLimits 899 (.number ['0'] []) := by
    refine ⟨.inl (.inl rfl), ⟨[], [], .inl rfl, .inl rfl, rfl⟩, fun bound hbound => ?_⟩
    obtain rfl : 4300 = bound := Option.some_inj.mp hbound
    decide
  have hverdict : WrittenAt auditLimits 899 (.obj [(codePoints "verdict", .str (codePoints "allowed"))]) :=
    List.forall_mem_singleton.mpr trivial
  show ∀ m ∈ exampleMembers question, WrittenAt auditLimits 899 m.2
  unfold exampleMembers
  refine List.forall_mem_append.mpr ⟨List.forall_mem_append.mpr ⟨List.forall_mem_append.mpr ⟨?_, hnull _⟩, ?_⟩, hnull _⟩
  · simp only [List.forall_mem_cons]
    exact ⟨trivial, trivial, trivial, trivial, hverdict, hzero, List.forall_mem_nil _⟩
  · exact List.forall_mem_singleton.mpr (List.forall_mem_nil _)

/-- The record of a question. -/
def examplePayload (question : List ℕ) (h : ((textPoints (.obj (exampleMembers question))).all (· < 0x110000)) = true) :
    AuditPayload auditLimits where
  members := exampleMembers question
  written := writtenAt_example question
  points n hn := of_decide_eq_true (List.all_eq_true.mp h n hn)

/-- A log without rotation. -/
def exampleCall (payload : AuditPayload auditLimits) (fault : Fault) : AuditCall auditLimits := ⟨payload, 0, 5, fault⟩

/-- A record with the question `q`. -/
def plainRecord : AuditPayload auditLimits := examplePayload (codePoints "q") (by decide +kernel)

/-- A record with an unpaired surrogate in its question. -/
def surrogateRecord : AuditPayload auditLimits := examplePayload [0xD800] (by decide +kernel)

/-- Where the log is. -/
def examplePlace : LogPlace := ⟨"audit_log.jsonl", true⟩

theorem plainRecord_encodable : ∀ n ∈ textPoints (.obj plainRecord.members), ¬ IsSurrogate n := by
  have hall : ((textPoints (.obj plainRecord.members)).all fun n => decide (¬ IsSurrogate n)) = true := by decide +kernel
  exact fun n hn => of_decide_eq_true (List.all_eq_true.mp hall n hn)

/-- A call that does not rotate. -/
theorem appendJsonl_still {place : LogPlace} {files : LogDirectory (Chunk L)} {call : AuditCall L} {t : List Char}
    (ht : LineOf call.payload t) (hmax : call.maxBytes = 0) (hfault : call.fault ≠ .preparing) :
    place.appendJsonl files call = place.writeLine files call (utf8Bytes (t ++ ['\n'])) := by
  have hops : place.opsBefore files call (utf8Bytes (t ++ ['\n'])) = [] := by
    rw [LogPlace.opsBefore, LogPlace.needsRotation, hmax]
    rfl
  have hstop : LogPlace.stoppedAt call.fault [] = none := by
    cases call.fault <;> rfl
  rw [LogPlace.appendJsonl, ht.lineBytes]
  dsimp only
  rw [if_neg hfault, hops, hstop]
  rfl

theorem active_appendBytes {place : LogPlace} {files : LogDirectory (Chunk L)} {payload : AuditPayload L}
    {bytes : List UInt8} (h : bytes ≠ []) :
    place.active (place.appendBytes files payload bytes) = place.active files ++ [⟨payload, bytes⟩] := by
  unfold LogPlace.active LogPlace.appendBytes
  rw [AList.lookup_insert, Option.getD_some, if_neg h]
  rfl

/-- The only file of a log is found. -/
theorem resolveLogPaths_appendBytes {place : LogPlace} {files : LogDirectory (Chunk L)} {payload : AuditPayload L}
    {bytes : List UInt8} (h : files.keys.erase place.path = []) :
    resolveLogPaths place.path (place.appendBytes files payload bytes) = [place.path] := by
  have hpre : place.path.toList.isPrefixOf place.path.toList = true :=
    List.isPrefixOf_iff_prefix.mpr List.prefix_rfl
  have hkept : [place.path].filter (fun name => place.path.toList.isPrefixOf name.toList) = [place.path] :=
    List.filter_eq_self.mpr (List.forall_mem_singleton.mpr hpre)
  unfold resolveLogPaths LogPlace.appendBytes
  rw [AList.keys_insert, h, hkept]
  rfl

/-- **A line behind the first byte of another** is no JSON. -/
theorem fileRecords_glued {payload : AuditPayload auditLimits} {t : List Char} (ht : LineOf payload t) :
    fileRecords auditLimits (utf8Bytes ('{' :: (t ++ ['\n']))) = .ok [] := by
  obtain ⟨u, rfl⟩ := dict_text ht.text
  have hnewline : '\n' ∉ '{' :: '{' :: (u ++ ['}']) := fun hmem => by
    obtain hmem | hmem := List.mem_cons.mp hmem
    · exact absurd hmem (by decide)
    · exact ht.newline_notMem hmem
  have hreturn : '\r' ∉ '{' :: ('{' :: (u ++ ['}']) ++ ['\n']) := fun hmem => by
    obtain hmem | hmem := List.mem_cons.mp hmem
    · exact absurd hmem (by decide)
    · obtain hmem | hmem := List.mem_append.mp hmem
      · exact ht.return_notMem hmem
      · exact absurd (List.mem_singleton.mp hmem) (by decide)
  have hlines := fileLines_line hnewline []
  have hstrip : strip ('{' :: '{' :: (u ++ ['}']) ++ ['\n']) = '{' :: '{' :: (u ++ ['}']) := by
    have htight : Tight ('{' :: '{' :: (u ++ ['}'])) := Tight.of_ends (u := '{' :: u) (by decide) (by decide)
    have hr := rstrip_tight htight [] ['\n']
    rw [show rstrip ['\n'] = [] by decide, List.append_nil] at hr
    exact hr
  have hloads : jsonLoadsText auditLimits ('{' :: '{' :: (u ++ ['}'])) = .error .syntactic := rfl
  have hline : lineRecords auditLimits ('{' :: '{' :: (u ++ ['}']) ++ ['\n']) = .ok [] := by
    rw [lineRecords, hstrip, if_neg (List.cons_ne_nil _ _), hloads]
  rw [fileRecords, utf8Text_utf8Bytes]
  dsimp only
  rw [universalNewlines_eq hreturn]
  refine (congrArg (concatRecords (lineRecords auditLimits)) hlines).trans ?_
  rw [concatRecords, hline]
  rfl

theorem lineOf_take_one {payload : AuditPayload L} {t : List Char} (ht : LineOf payload t) :
    (utf8Bytes (t ++ ['\n'])).take 1 = utf8Bytes ['{'] := by
  obtain ⟨u, rfl⟩ := dict_text ht.text
  rfl

/-- The line of the record. -/
theorem exists_plainLine : ∃ t, LineOf plainRecord t := AuditPayload.exists_lineOf plainRecord_encodable

/-- **A line that is lost**: the first write stops after one byte, and the record of the second call, whose
write did not fail, is not read back. -/
theorem not_accounted_of_unfinished {place : LogPlace} {payload : AuditPayload auditLimits} {t : List Char}
    (ht : LineOf payload t) : ∃ trail,
      run (auditStep place) {} [exampleCall payload (.writing 1), exampleCall payload .never] = some trail ∧
        ¬ Accounted place trail := by
  refine ⟨_, rfl, fun haccounted => ?_⟩
  obtain ⟨records, hread, hsublist⟩ := haccounted.yielded
  have hfirst : (saveAuditRecord place {} (exampleCall payload (.writing 1))).files =
      place.appendBytes ∅ payload (utf8Bytes ['{']) := by
    have hline : LineOf (exampleCall payload (.writing 1)).payload t := ht
    rw [← lineOf_take_one ht]
    exact congrArg Appended.files (appendJsonl_still hline rfl (by rintro ⟨⟩))
  have hsecond : ∀ trail : AuditTrail auditLimits,
      (saveAuditRecord place trail (exampleCall payload .never)).files =
        place.appendBytes trail.files payload (utf8Bytes (t ++ ['\n'])) := fun trail =>
    have hline : LineOf (exampleCall payload .never).payload t := ht
    congrArg Appended.files (appendJsonl_still hline rfl (by rintro ⟨⟩))
  have hne : utf8Bytes (t ++ ['\n']) ≠ [] := utf8Bytes_ne_nil (by simp)
  have hactive : (place.appendBytes (place.appendBytes ∅ payload (utf8Bytes ['{'])) payload
      (utf8Bytes (t ++ ['\n']))).lookup place.path =
        some [⟨payload, utf8Bytes ['{']⟩, ⟨payload, utf8Bytes (t ++ ['\n'])⟩] := by
    rw [LogPlace.appendBytes, AList.lookup_insert, active_appendBytes (utf8Bytes_ne_nil (by simp)), if_neg hne]
    rfl
  have hpaths : resolveLogPaths place.path (place.appendBytes (place.appendBytes ∅ payload (utf8Bytes ['{'])) payload
      (utf8Bytes (t ++ ['\n']))) = [place.path] := by
    refine resolveLogPaths_appendBytes ?_
    rw [LogPlace.appendBytes, AList.keys_insert]
    simp
  rw [hsecond, hfirst, hpaths] at hread hsublist
  have hbytes : fileBytes [(⟨payload, utf8Bytes ['{']⟩ : Chunk auditLimits), ⟨payload, utf8Bytes (t ++ ['\n'])⟩] =
      utf8Bytes ('{' :: (t ++ ['\n'])) := by
    show utf8Bytes ['{'] ++ (utf8Bytes (t ++ ['\n']) ++ []) = _
    rw [List.append_nil, ← utf8Bytes_append]
    rfl
  rw [iterAuditRecords, concatRecords, hactive, Option.getD_some, hbytes, fileRecords_glued ht] at hread
  cases hread
  have hwhole : (.obj payload.members : JsonValue) ∈
      wholeRecords [(⟨payload, utf8Bytes ['{']⟩ : Chunk auditLimits), ⟨payload, utf8Bytes (t ++ ['\n'])⟩] :=
    List.mem_map.mpr ⟨⟨payload, utf8Bytes (t ++ ['\n'])⟩,
      List.mem_filter.mpr ⟨List.mem_cons_of_mem _ List.mem_cons_self, decide_eq_true ht.lineBytes⟩, rfl⟩
  rw [List.flatMap_singleton, hactive, Option.getD_some] at hsublist
  exact absurd (hsublist.subset hwhole) List.not_mem_nil

/-- A text with an unpaired surrogate is not encoded, and the call raises. -/
theorem not_accounted_of_surrogate {place : LogPlace} {payload : AuditPayload auditLimits}
    (h : payload.lineBytes = none) : ∃ trail,
      run (auditStep place) {} [exampleCall payload .never] = some trail ∧ ¬ Accounted place trail := by
  refine ⟨_, rfl, fun haccounted => ?_⟩
  have happend : place.appendJsonl (∅ : LogDirectory (Chunk auditLimits)) (exampleCall payload .never) =
      ⟨.encodeError, ∅, false⟩ := by
    rw [LogPlace.appendJsonl, show (exampleCall payload .never).payload.lineBytes = none from h]
  have hraised := haccounted.returns ⟨true, false⟩ (by
    show _ ∈ [(⟨decide ((place.appendJsonl ∅ (exampleCall payload .never)).ended = .encodeError),
      (place.appendJsonl ∅ (exampleCall payload .never)).whole⟩ : SavedCall)]
    rw [happend]
    exact List.mem_singleton.mpr rfl)
  cases hraised

/-- A file that is refused when all of the line is in it counts a record that is not lost. -/
theorem not_accounted_of_closing {place : LogPlace} {payload : AuditPayload auditLimits} {t : List Char}
    (ht : LineOf payload t) : ∃ trail,
      run (auditStep place) {} [exampleCall payload (.writing (utf8Bytes (t ++ ['\n'])).length)] = some trail ∧
        ¬ Accounted place trail := by
  refine ⟨_, rfl, fun haccounted => ?_⟩
  have hline : LineOf (exampleCall payload (.writing (utf8Bytes (t ++ ['\n'])).length)).payload t := ht
  have happend : place.appendJsonl ∅ _ = _ := appendJsonl_still hline rfl (by rintro ⟨⟩)
  have hcounted : _ + _ = List.countP _ ([] ++ [_]) := haccounted.counted
  rw [happend] at hcounted
  simp [LogPlace.writeLine, exampleCall] at hcounted

theorem keepsAccount_opening {place : LogPlace} {trail : AuditTrail auditLimits} {payload : AuditPayload auditLimits}
    (h : ∀ n ∈ textPoints (.obj payload.members), ¬ IsSurrogate n) :
    KeepsAccount place trail (exampleCall payload .opening) where
  encodable := h
  cut _ hfault := by cases hfault
  mode hfault := by cases hfault
  lineStart hfault := absurd (List.mem_cons_of_mem _ List.mem_cons_self) hfault

theorem keepsAccount_first {place : LogPlace} {trail : AuditTrail auditLimits} {payload : AuditPayload auditLimits}
    (h : ∀ n ∈ textPoints (.obj payload.members), ¬ IsSurrogate n) (hfiles : trail.files = ∅) :
    KeepsAccount place trail (exampleCall payload .never) where
  encodable := h
  cut _ hfault := by cases hfault
  mode hfault := by cases hfault
  lineStart _ := .inr (by
    rw [hfiles]
    rintro _ ⟨⟩)

theorem files_opening {place : LogPlace} {payload : AuditPayload auditLimits} {t : List Char} (ht : LineOf payload t) :
    (saveAuditRecord place {} (exampleCall payload .opening)).files = ∅ :=
  have hline : LineOf (exampleCall payload .opening).payload t := ht
  congrArg Appended.files (appendJsonl_still hline rfl (by rintro ⟨⟩))

theorem surrogateRecord_lineBytes : surrogateRecord.lineBytes = none := by
  have hmem : (surrogateRecord.line.contains 0xD800) = true := by decide
  rw [AuditPayload.lineBytes, charsOf_surrogate (List.contains_iff_mem.mp hmem) (by decide)]
  rfl

end LocalSqlAgent
