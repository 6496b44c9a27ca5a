import LocalSqlAgent.Appdb.Feedback

/-! # Promoting a flag to a golden case

The route that resolves a flag, `admin_resolve_feedback`: for the golden-case outcome it first appends a case
to the golden file (`promote_to_golden_case`) and then resolves the flag in the database. Requests come one
after another, and any step of a request may fail.

* **`GoldenAgrees`**: a flag has a case in the file when it is resolved as a golden case, and then one.
* **`keepsGolden_iff`**: which sequences of requests keep it. -/

namespace LocalSqlAgent

/-! ## The golden file -/

/-- The fields `promote_to_golden_case` sets; the rest of a case has its defaults. -/
structure GoldenCase where
  /-- `id`. -/
  id : String
  /-- `question`. -/
  question : String
  /-- `tags`. -/
  tags : List String
  /-- `status`. -/
  status : String
  /-- `notes`. -/
  notes : String
  deriving DecidableEq, Repr

/-- A line of the file: a case's JSON text, or text that is none. -/
inductive GoldenLine where
  | case (c : GoldenCase)
  | garbled
  deriving DecidableEq, Repr

/-- The file: its terminated lines, and the text after the last line feed when there is some. -/
structure GoldenFile where
  /-- The lines that end in a line feed. -/
  lines : List GoldenLine
  /-- The text behind them. -/
  tail : Option GoldenLine
  deriving DecidableEq, Repr

/-- How much of a case and its line feed an append leaves in the file. -/
inductive Written where
  /-- Nothing. -/
  | nothing
  /-- A part of the case's text. -/
  | part
  /-- The case without its line feed. -/
  | unterminated
  /-- The whole line. -/
  | line
  deriving DecidableEq, Repr

/-- The file after an append. Text behind an unterminated line is glued to it, and a JSON text with more
behind or before it on its line is none. -/
def GoldenFile.write (file : GoldenFile) (c : GoldenCase) : Written → GoldenFile
  | .nothing => file
  | .part => { file with tail := some .garbled }
  | .unterminated => { file with tail := some (if file.tail = none then .case c else .garbled) }
  | .line => ⟨file.lines ++ [if file.tail = none then .case c else .garbled], none⟩

/-- The line is a case with this id. -/
def GoldenLine.isCase (caseId : String) : GoldenLine → Bool
  | .case c => c.id = caseId
  | .garbled => false

@[simp] theorem isCase_garbled (caseId : String) : GoldenLine.garbled.isCase caseId = false := rfl

@[simp] theorem isCase_case (c : GoldenCase) (caseId : String) :
    (GoldenLine.case c).isCase caseId = decide (c.id = caseId) := rfl

/-- How many cases with an id the file has. -/
def GoldenFile.count (file : GoldenFile) (caseId : String) : ℕ :=
  (file.lines ++ file.tail.toList).countP (GoldenLine.isCase caseId)

/-- Text is glued to a case with this id. -/
def GoldenFile.Glues (file : GoldenFile) (id : String) (w : Written) : Prop :=
  (∃ line ∈ file.tail, line.isCase id = true) ∧ w ≠ .nothing

/-- A whole case goes to a line of its own. -/
def GoldenFile.Lands (file : GoldenFile) (w : Written) : Prop :=
  file.tail = none ∧ (w = .unterminated ∨ w = .line)

instance (file : GoldenFile) (id : String) (w : Written) : Decidable (file.Glues id w) :=
  inferInstanceAs (Decidable ((∃ line ∈ file.tail, _) ∧ _))

instance (file : GoldenFile) (w : Written) : Decidable (file.Lands w) := inferInstanceAs (Decidable (_ ∧ _))

/-! ## The route -/

/-- The id of a flag's case. -/
def caseId (feedbackId : ℕ) : String := "feedback_" ++ toString feedbackId

/-- The body of `POST /admin/feedback/{id}/resolve`, the administrator and the clock. -/
structure ResolveRequest where
  /-- `outcome`. -/
  outcome : ResolutionOutcome
  /-- `note`. -/
  note : String
  /-- `config_version_id`. -/
  configVersionId : Option ℕ
  /-- `tags`. -/
  tags : List String
  /-- The administrator. -/
  actor : String
  /-- `_now_iso()`. -/
  now : String
  deriving DecidableEq, Repr

/-- How the steps of one request go. -/
structure Faults where
  /-- The database answers `get_feedback` before the append. -/
  reads : Bool
  /-- The append ends, or it fails and leaves this in the file. -/
  append : Option Written
  /-- The transaction of `resolve_feedback` commits. -/
  commits : Bool
  /-- The row is read back and the action recorded. -/
  readsBack : Bool
  deriving DecidableEq, Repr

/-- What an append leaves; one that ends wrote its line. -/
def Faults.written (faults : Faults) : Written := faults.append.getD .line

/-- The table and the file. -/
structure GoldenState where
  /-- `turn_feedback`. -/
  flags : List Flag
  /-- `cfg.settings.eval_golden_path`. -/
  file : GoldenFile
  deriving DecidableEq, Repr

/-- An `HTTPException`, or an exception the route does not catch. -/
structure HttpError where
  /-- `status_code`. -/
  status : ℕ
  /-- `detail`. -/
  detail : String
  deriving DecidableEq, Repr

/-- A request: its flag, its body, and how its steps go. -/
structure PromotionStep where
  /-- `feedback_id`. -/
  feedbackId : ℕ
  /-- The body. -/
  request : ResolveRequest
  /-- How its steps go. -/
  faults : Faults
  deriving DecidableEq, Repr

section Route

variable (repr : String → String) (log : List AuditedTurn)

/-- The case `promote_to_golden_case` builds for a flag. -/
def goldenCase (f : Flag) (question : String) (tags : List String) : GoldenCase where
  id := caseId f.feedbackId
  question := question
  tags := tags
  status := "pending_expected"
  notes := "Promoted from feedback #" ++ toString f.feedbackId ++ " (session " ++ repr f.sessionId ++
    ", turn " ++ repr f.turnId ++ "); awaiting a confirmed expected_sql/expected_fingerprint."

/-- `promote_to_golden_case` up to the append. -/
def promotedCase (flags : List Flag) (feedbackId : ℕ) (tags : List String) : Except FeedbackError GoldenCase :=
  match flags.find? fun f => f.feedbackId = feedbackId with
  | none => .error (.notFound ("no feedback row " ++ toString feedbackId))
  | some f =>
    match findAuditedTurn log f.sessionId f.turnId with
    | none => .error (.turnNotAudited ("no audit record names session_id=" ++ repr f.sessionId ++ " turn_id=" ++
        repr f.turnId ++ " -- cannot promote without the question it asked"))
    | some t =>
      if blank t.question then
        .error (.valueError ("GoldenCase " ++ repr (caseId feedbackId) ++ ": question must be non-empty"))
      else .ok (goldenCase repr f t.question tags)

/-- The arguments the route passes to `resolve_feedback`. -/
def ResolveRequest.resolution (req : ResolveRequest) (goldenCaseId : Option String) : Resolution :=
  ⟨req.outcome.text, req.actor, req.note, req.configVersionId, goldenCaseId⟩

/-- The error of an exception nothing catches. -/
def internalError : HttpError := ⟨500, "Internal Server Error"⟩

/-- The second half of the route: `resolve_feedback`. -/
def resolveHalf (s : GoldenState) (feedbackId : ℕ) (req : ResolveRequest) (goldenCaseId : Option String)
    (faults : Faults) : GoldenState × Except HttpError Unit :=
  match resolveFeedback repr s.flags feedbackId (req.resolution goldenCaseId) req.now with
  | .error (.notFound _) => (s, .error ⟨404, "no feedback " ++ toString feedbackId⟩)
  | .error (.alreadyResolved detail) => (s, .error ⟨409, detail⟩)
  | .error (.valueError detail) => (s, .error ⟨422, detail⟩)
  | .error (.turnNotAudited _) => (s, .error internalError)
  | .ok flags =>
    if faults.commits then
      ({ s with flags := flags }, if faults.readsBack then .ok () else .error internalError)
    else (s, .error internalError)

/-- **`admin_resolve_feedback`**: the state it leaves, and how it ends. -/
def adminResolveFeedback (s : GoldenState) (l : PromotionStep) : GoldenState × Except HttpError Unit :=
  if l.request.outcome = .goldenCase then
    if l.faults.reads then
      match promotedCase repr log s.flags l.feedbackId l.request.tags with
      | .error (.notFound _) => (s, .error ⟨404, "no feedback " ++ toString l.feedbackId⟩)
      | .error (.turnNotAudited detail) => (s, .error ⟨422, detail⟩)
      | .error _ => (s, .error internalError)
      | .ok c =>
        -- the case is in the file before the flag's status is looked at
        let appended := { s with file := s.file.write c l.faults.written }
        if l.faults.append = none then
          resolveHalf repr appended l.feedbackId l.request (some c.id) l.faults
        else (appended, .error internalError)
    else (s, .error internalError)
  else resolveHalf repr s l.feedbackId l.request none l.faults

/-- One request. -/
def promotionStep (s : GoldenState) (l : PromotionStep) : Option GoldenState :=
  some (adminResolveFeedback repr log s l).1

/-- The flag is resolved as a golden case. -/
def Flag.isGolden (f : Flag) : Bool := f.status = .resolved ∧ f.resolutionOutcome = some .goldenCase

/-- **The file agrees with the table**: a flag has one case when it is resolved as a golden case, and none
otherwise. -/
structure GoldenAgrees (s : GoldenState) : Prop where
  /-- The ids are the primary key. -/
  keys : (s.flags.map (·.feedbackId)).Nodup
  /-- One case for a flag resolved as a golden case. -/
  one : ∀ f ∈ s.flags, s.file.count (caseId f.feedbackId) = if f.isGolden then 1 else 0

/-- A request keeps the file in agreement. -/
def KeepsGolden (s : GoldenState) (l : PromotionStep) : Prop :=
  ∀ s', promotionStep repr log s l = some s' → GoldenAgrees s'

/-- A request reaches its append. -/
def PromotionStep.Appends (s : GoldenState) (l : PromotionStep) : Prop :=
  l.request.outcome = .goldenCase ∧ l.faults.reads = true ∧
    ∃ c, promotedCase repr log s.flags l.feedbackId l.request.tags = .ok c

/-- The request goes on to resolve the flag: it is open, the append ends, and the transaction commits. -/
def PromotionStep.Resolves (s : GoldenState) (l : PromotionStep) : Prop :=
  l.faults.append = none ∧ l.faults.commits = true ∧
    ∀ f ∈ s.flags, f.feedbackId = l.feedbackId → f.status = .opened

instance (s : GoldenState) (l : PromotionStep) : Decidable (l.Resolves s) :=
  inferInstanceAs (Decidable (_ ∧ _ ∧ _))

/-- **A case lands in the file exactly when its request resolves the flag**, and no text is glued to the
unterminated case of a flag. -/
def LandsAsResolved (s : GoldenState) (l : PromotionStep) : Prop :=
  l.Appends repr log s →
    (s.file.Lands l.faults.written ↔ l.Resolves s) ∧
      ∀ f ∈ s.flags, ¬ s.file.Glues (caseId f.feedbackId) l.faults.written

end Route

variable {repr : String → String} {log : List AuditedTurn} {s s' : GoldenState} {l : PromotionStep}
  {c : GoldenCase} {file : GoldenFile} {flags : List Flag} {feedbackId : ℕ} {f : Flag}

/-! ## The file under an append -/

/-- Different flags have different case ids. -/
theorem caseId_injective {m n : ℕ} (h : caseId m = caseId n) : m = n := by
  have hdigits : Nat.toDigits 10 m = Nat.toDigits 10 n := by
    have hlist := congrArg String.toList h
    unfold caseId at hlist
    rw [String.toList_append, String.toList_append] at hlist
    have htail := List.append_cancel_left hlist
    rwa [Nat.toString_eq_ofList_toDigits, Nat.toString_eq_ofList_toDigits, String.toList_ofList,
      String.toList_ofList] at htail
  rw [← Nat.ofDigitChars_ten_toDigits (n := m), hdigits, Nat.ofDigitChars_ten_toDigits]

/-- **What an append does to the number of cases**: one more where it lands, one less where text is glued to
an unterminated case. -/
theorem count_write (file : GoldenFile) (c : GoldenCase) (w : Written) (id : String) :
    (file.write c w).count id + (if file.Glues id w then 1 else 0)
      = file.count id + if file.Lands w ∧ c.id = id then 1 else 0 := by
  obtain ⟨lines, tail⟩ := file
  unfold GoldenFile.count GoldenFile.Glues GoldenFile.Lands
  cases tail with
  | none =>
    cases w with
    | nothing => simp [GoldenFile.write]
    | part => simp [GoldenFile.write]
    | unterminated => simp [GoldenFile.write, List.countP_singleton]
    | line => simp [GoldenFile.write, List.countP_singleton]
  | some line =>
    -- what is glued to the last line is no case, and neither is the line any more
    cases w <;> simp [GoldenFile.write, List.countP_singleton]

/-! ## Resolving and the table -/

theorem ofText?_text (outcome : ResolutionOutcome) : ResolutionOutcome.ofText? outcome.text = some outcome := by
  cases outcome <;> decide

/-- With the ids a key, the check is on the one row there is. -/
theorem openCheck_ok_iff (hkeys : (flags.map (·.feedbackId)).Nodup) :
    openCheck repr flags feedbackId = .ok () ↔
      (∃ f ∈ flags, f.feedbackId = feedbackId) ∧ ∀ f ∈ flags, f.feedbackId = feedbackId → f.status = .opened := by
  unfold openCheck
  cases hfind : flags.find? fun f => f.feedbackId = feedbackId with
  | none =>
    refine iff_of_false nofun ?_
    rintro ⟨⟨f, hf, hid⟩, -⟩
    exact absurd (decide_eq_true hid) (by simpa using List.find?_eq_none.mp hfind f hf)
  | some f =>
    have hf : f ∈ flags := List.mem_of_find?_eq_some hfind
    have hid : f.feedbackId = feedbackId := by simpa using List.find?_some hfind
    have hone : ∀ f' ∈ flags, f'.feedbackId = feedbackId → f' = f :=
      fun f' hf' hid' => List.inj_on_of_nodup_map hkeys hf' hf (hid'.trans hid.symm)
    dsimp only
    constructor
    · intro hok
      split at hok
      · cases hok
      · rename_i hopen
        refine ⟨⟨f, hf, hid⟩, fun f' hf' hid' => ?_⟩
        rw [hone f' hf' hid']
        cases hstatus : f.status with
        | opened => rfl
        | resolved => exact absurd hstatus hopen
    · rintro ⟨-, hopen⟩
      rw [if_neg]
      rw [hopen f hf hid]
      exact nofun

/-- How many cases a flag is to have after its request. -/
def wantedAfter (feedbackId : ℕ) (outcome : ResolutionOutcome) (f : Flag) : ℕ :=
  if f.feedbackId = feedbackId then (if outcome = .goldenCase then 1 else 0) else if f.isGolden then 1 else 0

/-- Agreement after a resolution, told on the flags before it. -/
theorem goldenAgrees_resolveFlag_iff (hkeys : (flags.map (·.feedbackId)).Nodup) (r : Resolution)
    (outcome : ResolutionOutcome) (now : String) :
    GoldenAgrees ⟨resolveFlag flags feedbackId r outcome now, file⟩ ↔
      ∀ f ∈ flags, file.count (caseId f.feedbackId) = wantedAfter feedbackId outcome f := by
  have hrow : ∀ f : Flag, (if (if f.feedbackId = feedbackId then f.resolve r outcome now else f).isGolden
      then 1 else 0) = wantedAfter feedbackId outcome f := by
    intro f
    unfold wantedAfter
    split
    · simp [Flag.isGolden, Flag.resolve]
    · rfl
  have hid : ∀ f : Flag, (if f.feedbackId = feedbackId then f.resolve r outcome now else f).feedbackId
      = f.feedbackId := by
    intro f
    split <;> rfl
  constructor
  · intro h f hf
    have hone := h.one _ (List.mem_map_of_mem hf)
    rwa [hid, hrow] at hone
  · intro h
    refine ⟨?_, fun f' hf' => ?_⟩
    · show ((resolveFlag flags feedbackId r outcome now).map (·.feedbackId)).Nodup
      rw [map_feedbackId_resolveFlag]
      exact hkeys
    · obtain ⟨f, hf, rfl⟩ := List.mem_map.mp hf'
      rw [hid, hrow]
      exact h f hf

/-! ## What a request leaves -/

/-- A promotion is about a flag of the table. -/
theorem of_promotedCase {tags : List String} (h : promotedCase repr log flags feedbackId tags = .ok c) :
    (∃ f ∈ flags, f.feedbackId = feedbackId) ∧ c.id = caseId feedbackId := by
  unfold promotedCase at h
  split at h
  · cases h
  · rename_i f hfind
    have hid : f.feedbackId = feedbackId := by simpa using List.find?_some hfind
    split at h
    · cases h
    · split at h
      · cases h
      · cases h
        refine ⟨⟨f, List.mem_of_find?_eq_some hfind, hid⟩, ?_⟩
        show caseId f.feedbackId = caseId feedbackId
        rw [hid]

/-- A resolution as a golden case has no argument to refuse. -/
theorem resolutionChecks_golden {req : ResolveRequest} (h : req.outcome = .goldenCase) (id : Option String) :
    resolutionChecks repr (req.resolution id) = .ok .goldenCase := by
  unfold resolutionChecks ResolveRequest.resolution
  rw [h, ofText?_text]
  exact if_neg fun hno => nomatch hno.1

/-- What the second half of the route leaves: the table as it was, or the flag resolved. -/
theorem resolveHalf_cases (repr : String → String) (hkeys : (s.flags.map (·.feedbackId)).Nodup) (feedbackId : ℕ)
    (req : ResolveRequest) (id : Option String) (faults : Faults) :
    (resolveHalf repr s feedbackId req id faults).1 = s ∨
      (resolveHalf repr s feedbackId req id faults).1 =
          { s with flags := resolveFlag s.flags feedbackId (req.resolution id) req.outcome req.now } ∧
        faults.commits = true ∧ ∀ f ∈ s.flags, f.feedbackId = feedbackId → f.status = .opened := by
  unfold resolveHalf
  split
  · exact .inl rfl
  · exact .inl rfl
  · exact .inl rfl
  · exact .inl rfl
  · rename_i flags hok
    split
    · rename_i hcommits
      unfold resolveFeedback at hok
      split at hok
      · cases hok
      · rename_i outcome hchecks
        split at hok
        · cases hok
        · rename_i hopen
          cases hok
          -- the outcome passed as text is read back as itself
          have houtcome : outcome = req.outcome := by
            unfold resolutionChecks ResolveRequest.resolution at hchecks
            rw [ofText?_text] at hchecks
            dsimp only at hchecks
            split at hchecks
            · cases hchecks
            · exact (Except.ok.inj hchecks).symm
          rw [houtcome]
          exact .inr ⟨rfl, hcommits, ((openCheck_ok_iff hkeys).mp hopen).2⟩
    · exact .inl rfl

/-- A golden-case request that resolves the flag does resolve it. -/
theorem resolveHalf_golden (hkeys : (s.flags.map (·.feedbackId)).Nodup) {req : ResolveRequest}
    {id : Option String} {faults : Faults} (hreq : req.outcome = .goldenCase)
    (hmem : ∃ f ∈ s.flags, f.feedbackId = feedbackId)
    (hopen : ∀ f ∈ s.flags, f.feedbackId = feedbackId → f.status = .opened) (hcommits : faults.commits = true) :
    (resolveHalf repr s feedbackId req id faults).1 =
      { s with flags := resolveFlag s.flags feedbackId (req.resolution id) .goldenCase req.now } := by
  have hok : resolveFeedback repr s.flags feedbackId (req.resolution id) req.now
      = .ok (resolveFlag s.flags feedbackId (req.resolution id) .goldenCase req.now) := by
    unfold resolveFeedback
    rw [resolutionChecks_golden hreq]
    dsimp only
    rw [(openCheck_ok_iff hkeys).mpr ⟨hmem, hopen⟩]
  unfold resolveHalf
  rw [hok]
  dsimp only
  rw [if_pos hcommits]

/-- **A request that does not append** keeps the file in agreement: it leaves the table as it was, or
resolves a flag that was open, and not as a golden case. -/
theorem keepsGolden_of_not_appends (h : GoldenAgrees s) (hl : ¬ l.Appends repr log s) :
    KeepsGolden repr log s l := by
  intro s' hstep
  obtain rfl : (adminResolveFeedback repr log s l).1 = s' := Option.some_inj.mp hstep
  unfold adminResolveFeedback
  split
  · rename_i hgolden
    split
    · rename_i hreads
      split
      · exact h
      · exact h
      · exact h
      · rename_i c hpromoted
        exact absurd ⟨hgolden, hreads, c, hpromoted⟩ hl
    · exact h
  · rename_i hgolden
    obtain hsame | ⟨hresolved, -, hopen⟩ := resolveHalf_cases repr h.keys l.feedbackId l.request
      none l.faults
    · rw [hsame]
      exact h
    · rw [hresolved, goldenAgrees_resolveFlag_iff h.keys]
      intro f hf
      unfold wantedAfter
      split
      · -- it was open, so it had no case
        rename_i hid
        rw [h.one f hf, if_neg]
        simp [Flag.isGolden, hopen f hf hid]
      · exact h.one f hf

/-- What a request that appends leaves: the file with what was written, and the flag resolved if the request
goes on to resolve it. -/
theorem promotionStep_of_appends (h : GoldenAgrees s) (happ : l.Appends repr log s) :
    ∃ c r now, c.id = caseId l.feedbackId ∧ (∃ f ∈ s.flags, f.feedbackId = l.feedbackId) ∧
      (l.Resolves s → promotionStep repr log s l = some
        ⟨resolveFlag s.flags l.feedbackId r .goldenCase now, s.file.write c l.faults.written⟩) ∧
      (¬ l.Resolves s → promotionStep repr log s l = some ⟨s.flags, s.file.write c l.faults.written⟩) := by
  obtain ⟨hgolden, hreads, c, hpromoted⟩ := happ
  obtain ⟨hmem, hid⟩ := of_promotedCase hpromoted
  refine ⟨c, l.request.resolution (some c.id), l.request.now, hid, hmem, ?_, ?_⟩
  · rintro ⟨happend, hcommits, hopen⟩
    unfold promotionStep adminResolveFeedback
    rw [if_pos hgolden, if_pos hreads, hpromoted]
    dsimp only
    rw [if_pos happend]
    exact congrArg some (resolveHalf_golden (s := { s with file := s.file.write c l.faults.written })
      h.keys hgolden hmem hopen hcommits)
  · intro hnot
    unfold promotionStep adminResolveFeedback
    rw [if_pos hgolden, if_pos hreads, hpromoted]
    dsimp only
    split
    · rename_i happend
      obtain hsame | ⟨-, hcommits, hopen⟩ := resolveHalf_cases repr
        (s := { s with file := s.file.write c l.faults.written }) h.keys l.feedbackId l.request (some c.id) l.faults
      · exact congrArg some hsame
      · exact absurd ⟨happend, hcommits, hopen⟩ hnot
    · -- the append failed, and what it wrote stays
      rfl

/-- Text glued to a line lands on none. -/
theorem GoldenFile.Glues.not_lands {id : String} {w : Written} (h : file.Glues id w) : ¬ file.Lands w := by
  obtain ⟨⟨line, hline, -⟩, -⟩ := h
  rintro ⟨hnone, -⟩
  rw [hnone] at hline
  cases hline

/-- A flag's cases after an append, against what the table says. -/
theorem count_after_append (h : GoldenAgrees s) (hid : c.id = caseId feedbackId) (w : Written) (hf : f ∈ s.flags) :
    (s.file.write c w).count (caseId f.feedbackId) + (if s.file.Glues (caseId f.feedbackId) w then 1 else 0)
      = (if f.isGolden then 1 else 0) + if s.file.Lands w ∧ f.feedbackId = feedbackId then 1 else 0 := by
  rw [count_write, h.one f hf, hid]
  congr 1
  refine if_congr (and_congr_right fun _ => ⟨fun heq => (caseId_injective heq).symm, fun heq => ?_⟩) rfl rfl
  rw [heq]

/-- A case that text is glued to is lost. -/
theorem count_of_glues (h : GoldenAgrees s) (hid : c.id = caseId feedbackId) {w : Written} (hf : f ∈ s.flags)
    (hglues : s.file.Glues (caseId f.feedbackId) w) :
    (s.file.write c w).count (caseId f.feedbackId) + 1 = if f.isGolden then 1 else 0 := by
  have hcount := count_after_append h hid w hf
  simpa only [hglues, hglues.not_lands, if_true, false_and, if_false, Nat.add_zero] using hcount

/-- A case that lands is one more. -/
theorem count_of_lands (h : GoldenAgrees s) (hid : c.id = caseId feedbackId) {w : Written} (hf : f ∈ s.flags)
    (hlands : s.file.Lands w) (heq : f.feedbackId = feedbackId) :
    (s.file.write c w).count (caseId f.feedbackId) = (if f.isGolden then 1 else 0) + 1 := by
  have hcount := count_after_append h hid w hf
  have hnoglue : ¬ s.file.Glues (caseId f.feedbackId) w := fun hglues => hglues.not_lands hlands
  have hboth : s.file.Lands w ∧ f.feedbackId = feedbackId := ⟨hlands, heq⟩
  rwa [if_neg hnoglue, if_pos hboth] at hcount

/-- Without either, a flag keeps its cases. -/
theorem count_of_neither (h : GoldenAgrees s) (hid : c.id = caseId feedbackId) {w : Written} (hf : f ∈ s.flags)
    (hnoglue : ¬ s.file.Glues (caseId f.feedbackId) w) (hnone : ¬ (s.file.Lands w ∧ f.feedbackId = feedbackId)) :
    (s.file.write c w).count (caseId f.feedbackId) = if f.isGolden then 1 else 0 := by
  have hcount := count_after_append h hid w hf
  simpa only [hnoglue, hnone, if_false, Nat.add_zero] using hcount

/-- The append of a request that resolves its flag has to land. -/
theorem append_resolved_iff (h : GoldenAgrees s) (hid : c.id = caseId feedbackId) (w : Written)
    (hmem : ∃ f ∈ s.flags, f.feedbackId = feedbackId)
    (hopen : ∀ f ∈ s.flags, f.feedbackId = feedbackId → f.status = .opened) :
    (∀ f ∈ s.flags, (s.file.write c w).count (caseId f.feedbackId) = wantedAfter feedbackId .goldenCase f) ↔
      s.file.Lands w ∧ ∀ f ∈ s.flags, ¬ s.file.Glues (caseId f.feedbackId) w := by
  have hgolden : ∀ f ∈ s.flags, f.feedbackId = feedbackId → (if f.isGolden then 1 else 0) = 0 := by
    intro f hf heq
    simp [Flag.isGolden, hopen f hf heq]
  have hwanted : ∀ f ∈ s.flags, (if f.isGolden then 1 else 0) ≤ wantedAfter feedbackId .goldenCase f := by
    intro f hf
    by_cases heq : f.feedbackId = feedbackId
    · rw [hgolden f hf heq]
      exact Nat.zero_le _
    · exact Nat.le_of_eq (if_neg heq).symm
  constructor
  · intro hall
    have hnoglue : ∀ f ∈ s.flags, ¬ s.file.Glues (caseId f.feedbackId) w := by
      -- no flag is to have fewer cases than before
      intro f hf hglues
      have hlost := count_of_glues h hid hf hglues
      have hleft := hall f hf
      have hle := hwanted f hf
      omega
    refine ⟨?_, hnoglue⟩
    -- the flag had no case and needs one
    obtain ⟨f, hf, heq⟩ := hmem
    by_contra hlands
    have hkept := count_of_neither h hid hf (hnoglue f hf) fun hboth => hlands hboth.1
    rw [hgolden f hf heq, hall f hf, wantedAfter, if_pos heq, if_pos rfl] at hkept
    cases hkept
  · rintro ⟨hlands, hnoglue⟩ f hf
    by_cases heq : f.feedbackId = feedbackId
    · rw [count_of_lands h hid hf hlands heq, hgolden f hf heq, wantedAfter, if_pos heq, if_pos rfl]
    · rw [count_of_neither h hid hf (hnoglue f hf) fun hboth => heq hboth.2, wantedAfter, if_neg heq]

/-- The append of a request that does not resolve its flag must not land. -/
theorem append_unresolved_iff (h : GoldenAgrees s) (hid : c.id = caseId feedbackId) (w : Written)
    (hmem : ∃ f ∈ s.flags, f.feedbackId = feedbackId) :
    (∀ f ∈ s.flags, (s.file.write c w).count (caseId f.feedbackId) = if f.isGolden then 1 else 0) ↔
      ¬ s.file.Lands w ∧ ∀ f ∈ s.flags, ¬ s.file.Glues (caseId f.feedbackId) w := by
  constructor
  · intro hall
    refine ⟨fun hlands => ?_, fun f hf hglues => ?_⟩
    · -- one case more than the table has for the flag
      obtain ⟨f, hf, heq⟩ := hmem
      have hmore := count_of_lands h hid hf hlands heq
      have hsame := hall f hf
      omega
    · have hlost := count_of_glues h hid hf hglues
      have hsame := hall f hf
      omega
  · rintro ⟨hlands, hnoglue⟩ f hf
    exact count_of_neither h hid hf (hnoglue f hf) fun hboth => hlands hboth.1

/-- **A request that appends** keeps the file in agreement exactly when its case lands as it resolves the
flag, and nothing is glued to a flag's case. -/
theorem keepsGolden_of_appends_iff (h : GoldenAgrees s) (happ : l.Appends repr log s) :
    KeepsGolden repr log s l ↔ (s.file.Lands l.faults.written ↔ l.Resolves s) ∧
      ∀ f ∈ s.flags, ¬ s.file.Glues (caseId f.feedbackId) l.faults.written := by
  obtain ⟨c, r, now, hid, hmem, hresolved, hunresolved⟩ := promotionStep_of_appends h happ
  by_cases hres : l.Resolves s
  · have hkeeps : KeepsGolden repr log s l ↔
        GoldenAgrees ⟨resolveFlag s.flags l.feedbackId r .goldenCase now, s.file.write c l.faults.written⟩ := by
      unfold KeepsGolden
      rw [hresolved hres]
      exact ⟨fun hall => hall _ rfl, fun hagrees s' hs' => Option.some_inj.mp hs' ▸ hagrees⟩
    rw [hkeeps, goldenAgrees_resolveFlag_iff h.keys, append_resolved_iff h hid _ hmem hres.2.2, iff_true_right hres]
  · have hkeeps : KeepsGolden repr log s l ↔ ∀ f ∈ s.flags,
        (s.file.write c l.faults.written).count (caseId f.feedbackId) = if f.isGolden then 1 else 0 := by
      unfold KeepsGolden
      rw [hunresolved hres]
      refine ⟨fun hall => (hall _ rfl).one, fun hall s' hs' => ?_⟩
      obtain rfl := Option.some_inj.mp hs'
      exact ⟨h.keys, hall⟩
    rw [hkeeps, append_unresolved_iff h hid _ hmem, iff_false_right hres]

/-- **One request.** -/
theorem keepsGolden_step_iff (h : GoldenAgrees s) (l : PromotionStep) :
    KeepsGolden repr log s l ↔ LandsAsResolved repr log s l := by
  by_cases happ : l.Appends repr log s
  · rw [keepsGolden_of_appends_iff h happ]
    exact ⟨fun hsafe _ => hsafe, fun hsafe => hsafe happ⟩
  · exact iff_of_true (keepsGolden_of_not_appends h happ) fun happ' => absurd happ' happ

/-- **The sequences of requests that keep the golden file in agreement with the table**, from any state in
which they agree. -/
theorem keepsGolden_iff (repr : String → String) (log : List AuditedTurn) (s₀ s : GoldenState)
    (steps : List PromotionStep) (h : GoldenAgrees s₀) :
    RunWhere (promotionStep repr log) (KeepsGolden repr log) s₀ steps s ↔
      RunWhere (promotionStep repr log) (LandsAsResolved repr log) s₀ steps s := by
  refine RunWhere.congr_of_kept (I := GoldenAgrees) h ?_ ?_
  · exact fun _ _ s' _ hkeeps hstep => hkeeps s' hstep
  · exact fun _ l hI => keepsGolden_step_iff hI l

/-! ## A second request -/

/-- An open flag on the audited turn, and an empty golden file. -/
def oneFlag : GoldenState where
  flags := [⟨1, "s1", "t1", some "r1", "analyst-1", "wrong_number", none, none, "t0", .opened, none, none, none,
    none, none, none⟩]
  file := ⟨[], none⟩

/-- A request to make the flag a golden case, of which `append` and `commits` tell how it goes. -/
def asGolden (append : Option Written) (commits : Bool) : PromotionStep :=
  ⟨1, ⟨.goldenCase, "", none, [], "admin-1", "now1"⟩, ⟨true, append, commits, true⟩⟩

theorem goldenAgrees_oneFlag : GoldenAgrees oneFlag := ⟨by decide, by decide⟩

/-- An append that fails and leaves nothing, and a retry that goes well. -/
theorem keepsGolden_iff_retried :
    GoldenAgrees oneFlag ∧ ∃ s, RunWhere (promotionStep id [auditedTurn]) (KeepsGolden id [auditedTurn]) oneFlag
      [asGolden (some .nothing) true, asGolden none true] s := by
  have hlands : ∃ s, RunWhere (promotionStep id [auditedTurn]) (LandsAsResolved id [auditedTurn]) oneFlag
      [asGolden (some .nothing) true, asGolden none true] s := by
    refine ⟨_, .cons ?_ rfl (.cons ?_ rfl (.nil _))⟩
    · exact fun _ => ⟨by decide, by decide⟩
    · exact fun _ => ⟨by decide, by decide⟩
  obtain ⟨s, hs⟩ := hlands
  exact ⟨goldenAgrees_oneFlag, s,
    (keepsGolden_iff id [auditedTurn] oneFlag s _ goldenAgrees_oneFlag).mpr hs⟩

/-- **A retry after a failed commit**, and a request on a flag already resolved, append the case again. -/
theorem retriedPromotion_duplicates :
    (∃ s, run (promotionStep id [auditedTurn]) oneFlag [asGolden none false, asGolden none true] = some s ∧
      s.flags.map (·.isGolden) = [true] ∧ s.file.count "feedback_1" = 2) ∧
    (∃ s, run (promotionStep id [auditedTurn]) oneFlag [asGolden none true, asGolden none true] = some s ∧
      s.flags.map (·.isGolden) = [true] ∧ s.file.count "feedback_1" = 2) ∧
    ∀ s, ¬ RunWhere (promotionStep id [auditedTurn]) (KeepsGolden id [auditedTurn]) oneFlag
      [asGolden none true, asGolden none true] s := by
  refine ⟨⟨_, rfl, by decide, by decide⟩, ⟨_, rfl, by decide, by decide⟩, ?_⟩
  refine not_runWhere_of_run (I := GoldenAgrees) rfl goldenAgrees_oneFlag ?_ ?_
  · exact fun _ _ s' _ hkeeps hstep => hkeeps s' hstep
  · exact fun h => absurd (h.one _ (.head _)) (by decide)

end LocalSqlAgent
