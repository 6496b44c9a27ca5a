import LocalSqlAgent.Llm.CorrectionSteps

/-! # What the steps of a correction loop keep

The law every event obeys: the model is called only while no candidate has been refused by policy, the
guard always runs under the caller's denied columns, and what is executed is an accepted statement
capped by `ensure_top`, in the deployment's dialect, or a respelling the guard accepted again
(`LoopLaw`). Each step has one triple over it; the callers use the triples only. -/

namespace LocalSqlAgent

variable (W : LoopWorld) (S : LoopSettings)

/-! ## The law -/

/-- The guard accepted a text under the caller's denied columns. -/
def Accepted (dialect : Dialect) (sql : String) (log : List LoopEvent) : Prop :=
  ∃ site, .validated site dialect S.deniedColumns sql none ∈ log

/-- **What the guard pipeline returns**: `ensure_top` of an accepted text, taken to the deployment's
dialect and accepted there with the same tables. -/
def Checked (sql : String) (log : List LoopEvent) : Prop :=
  ∃ cleaned capped, Accepted S .tsql cleaned log ∧ W.ensureTop cleaned S.defaultTopN = .ok capped ∧
    ((S.sqlDialect = .tsql ∧ sql = capped) ∨
      (S.sqlDialect ≠ .tsql ∧ W.transpileSql S.sqlDialect capped = .ok sql ∧
        Accepted S S.sqlDialect sql log ∧
        W.touchedTables .tsql capped ⊆ W.touchedTables S.sqlDialect sql ∧
        W.touchedTables S.sqlDialect sql ⊆ W.touchedTables .tsql capped))

/-- **What may be executed**: what the pipeline returned, or its respelling, accepted again. -/
def Approved (sql : String) (log : List LoopEvent) : Prop :=
  Checked W S sql log ∨
    ∃ checked older, Checked W S checked log ∧
      W.fixFilterSpelling older S.deniedColumns S.sqlDialect checked = some sql ∧
      Accepted S S.sqlDialect sql log

/-- A policy rejection of a candidate of the loop. -/
def LoopEvent.refusesCandidate : LoopEvent → Bool
  | .validated .candidate _ _ _ (some e) => e.isPolicy
  | _ => false

/-- **The law of the loops**, for an event and those before it. -/
def LoopLaw (older : List LoopEvent) : LoopEvent → Prop
  | .generated _ => ∀ e ∈ older, e.refusesCandidate = false
  | .validated _ _ denied _ _ => denied = S.deniedColumns
  | .executed sql => Approved W S sql older

/-- The model calls of a log, by their reason. -/
def calls (site : CallSite) (log : List LoopEvent) : Nat := log.count (.generated site)

/-- A lawful log within a budget of model calls. -/
structure Within (budget : CallSite → Nat) (log : List LoopEvent) : Prop where
  /-- Every event obeys the law. -/
  lawful : Lawful (LoopLaw W S) log
  /-- The calls are within the budget. -/
  calls_le : ∀ site, calls site log ≤ budget site

/-- A log in which no candidate has been refused by policy: the model may be called. -/
structure Open (budget : CallSite → Nat) (log : List LoopEvent) : Prop extends
    Within W S budget log where
  /-- No candidate has been refused. -/
  unrefused : ∀ e ∈ log, e.refusesCandidate = false

/-- One more call of a kind. -/
def spend (budget : CallSite → Nat) (site : CallSite) : CallSite → Nat :=
  Function.update budget site (budget site + 1)

variable {W S}

theorem persistent_accepted (dialect : Dialect) (sql : String) :
    Persistent (Accepted S dialect sql) :=
  fun _ _ hgrow ⟨site, hmem⟩ => ⟨site, hgrow.subset hmem⟩

theorem persistent_checked (sql : String) : Persistent (Checked W S sql) := by
  rintro l l' hgrow ⟨cleaned, capped, hacc, htop, hfinal⟩
  refine ⟨cleaned, capped, persistent_accepted _ _ l l' hgrow hacc, htop, hfinal.imp_right ?_⟩
  rintro ⟨hdialect, htranspile, hacc', htables⟩
  exact ⟨hdialect, htranspile, persistent_accepted _ _ l l' hgrow hacc', htables⟩

theorem persistent_approved (sql : String) : Persistent (Approved W S sql) := by
  rintro l l' hgrow (hchecked | ⟨checked, older, hchecked, hfix, hacc⟩)
  · exact .inl (persistent_checked sql l l' hgrow hchecked)
  · exact .inr ⟨checked, older, persistent_checked checked l l' hgrow hchecked, hfix,
      persistent_accepted _ _ l l' hgrow hacc⟩

section Budgets

variable {b b' : CallSite → Nat} {log : List LoopEvent}

theorem Within.mono (h : Within W S b log) (hb : ∀ site, b site ≤ b' site) : Within W S b' log :=
  ⟨h.lawful, fun site => (h.calls_le site).trans (hb site)⟩

theorem Open.mono (h : Open W S b log) (hb : ∀ site, b site ≤ b' site) : Open W S b' log :=
  ⟨h.toWithin.mono hb, h.unrefused⟩

theorem open_nil : Open W S b [] where
  lawful := trivial
  calls_le _ := Nat.zero_le _
  unrefused _ he := absurd he List.not_mem_nil

/-- **A model call** costs one of its kind. -/
theorem Open.generated (h : Open W S b log) (site : CallSite) :
    Open W S (spend b site) (.generated site :: log) where
  lawful := ⟨h.unrefused, h.lawful⟩
  calls_le site' := by
    have hle := h.calls_le site'
    by_cases hsite : site' = site
    · subst hsite
      simp only [calls, List.count_cons_self, spend, Function.update_self]
      exact Nat.succ_le_succ hle
    · rw [calls, List.count_cons_of_ne (by simpa using Ne.symm hsite), spend,
        Function.update_of_ne hsite]
      exact hle
  unrefused := by
    rw [List.forall_mem_cons]
    exact ⟨rfl, h.unrefused⟩

/-- An event that is no model call costs nothing. -/
theorem Within.cons {e : LoopEvent} (h : Within W S b log) (hlaw : LoopLaw W S log e)
    (hcall : ∀ site, e ≠ .generated site) : Within W S b (e :: log) where
  lawful := ⟨hlaw, h.lawful⟩
  calls_le site := by
    rw [calls, List.count_cons_of_ne (hcall site)]
    exact h.calls_le site

theorem Open.cons {e : LoopEvent} (h : Open W S b log) (hlaw : LoopLaw W S log e)
    (hcall : ∀ site, e ≠ .generated site) (hrefuse : e.refusesCandidate = false) :
    Open W S b (e :: log) where
  toWithin := h.toWithin.cons hlaw hcall
  unrefused := by
    rw [List.forall_mem_cons]
    exact ⟨hrefuse, h.unrefused⟩

end Budgets

/-- The log after the guard raised `e`: lawful, and open unless a candidate was refused by policy. -/
structure AfterRejection (W : LoopWorld) (S : LoopSettings) (site : GuardSite)
    (b : CallSite → Nat) (e : PyError) (log : List LoopEvent) : Prop extends Within W S b log where
  /-- Any other rejection leaves the log open. -/
  reopen : ¬ (site = .candidate ∧ e.isPolicy = true) → Open W S b log

theorem Open.afterRejection {b : CallSite → Nat} {log : List LoopEvent} (h : Open W S b log)
    (site : GuardSite) (e : PyError) : AfterRejection W S site b e log :=
  ⟨h.toWithin, fun _ => h⟩

theorem refusesCandidate_eq_false {site : GuardSite} {dialect : Dialect}
    {denied : Option (List String)} {sql : String} {e : PyError}
    (h : ¬ (site = .candidate ∧ e.isPolicy = true)) :
    (LoopEvent.validated site dialect denied sql (some e)).refusesCandidate = false := by
  cases site with
  | candidate => exact Bool.eq_false_iff.mpr fun hpolicy => h ⟨rfl, hpolicy⟩
  | valueRound => rfl
  | respelling => rfl

/-! ## One triple for each step -/

section Rules

variable {b : CallSite → Nat} {E : PyError → List LoopEvent → Prop}

theorem meets_generateForTask (site : CallSite) :
    Meets (Open W S b) (generateForTask W site) (fun _ => Open W S (spend b site)) E := by
  refine (meets_observe (Q := fun _ => Open W S b) fun l hl => hl).bind fun answer => ?_
  refine (meets_record (Q := fun _ => Open W S (spend b site)) fun l hl => ?_).bind fun _ =>
    meets_pure fun l hl => hl
  exact hl.generated site

/-- **The guard**: acceptance is on the log, and only a policy rejection of a candidate closes it. -/
theorem meets_validateSql (site : GuardSite) (dialect : Dialect) (sql : String) :
    Meets (Open W S b) (validateSql W S site dialect sql)
      (fun _ l => Open W S b l ∧ Accepted S dialect sql l) (AfterRejection W S site b) := by
  refine (meets_observe (Q := fun _ => Open W S b) fun l hl => hl).bind fun verdict => ?_
  cases verdict with
  | ok u =>
    refine meets_record fun l hl => ⟨hl.cons rfl nofun ?_, site, List.mem_cons_self⟩
    cases site <;> rfl
  | error e =>
    refine (meets_record (Q := fun _ => AfterRejection W S site b e) fun l hl => ?_).bind fun _ =>
      meets_throw fun l hl => hl
    exact ⟨hl.toWithin.cons rfl nofun, fun h => hl.cons rfl nofun (refusesCandidate_eq_false h)⟩

/-- Transpilation keeps what is known and returns a checked text. -/
theorem meets_transpileAndRevalidate (site : GuardSite) {cleaned capped : String}
    (htop : W.ensureTop cleaned S.defaultTopN = .ok capped) :
    Meets (fun l => Open W S b l ∧ Accepted S .tsql cleaned l)
      (transpileAndRevalidate W S site capped) (fun sql l => Open W S b l ∧ Checked W S sql l)
      (AfterRejection W S site b) := by
  unfold transpileAndRevalidate
  split
  · rename_i hdialect
    exact meets_pure fun l ⟨hopen, hacc⟩ =>
      ⟨hopen, cleaned, capped, hacc, htop, .inl ⟨hdialect, rfl⟩⟩
  · rename_i hdialect
    refine (meets_fromExcept (Q := fun sql l => (Open W S b l ∧ Accepted S .tsql cleaned l) ∧
        W.transpileSql S.sqlDialect capped = .ok sql)
      (fun sql l hsql hl => ⟨hl, hsql⟩) fun e l _ hl => hl.1.afterRejection site e).bind
      fun sql => Meets.of_pure fun htranspile => ?_
    refine ((meets_validateSql site S.sqlDialect sql).frame_ok
      (persistent_accepted .tsql cleaned)).bind fun _ => ?_
    dsimp only
    split
    · rename_i htables
      exact meets_pure fun l ⟨⟨hopen, hsql⟩, hacc⟩ => ⟨hopen, cleaned, capped, hacc, htop,
        .inr ⟨hdialect, htranspile, hsql, htables.1, htables.2⟩⟩
    · exact meets_throw fun l ⟨⟨hopen, _⟩, _⟩ => hopen.afterRejection site _

/-- **The guard pipeline** from a cleaned text on. -/
theorem meets_validateAndCap (site : GuardSite) (cleaned : String) :
    Meets (Open W S b) (validateAndCap W S site cleaned)
      (fun r l => Open W S b l ∧ Checked W S r.1 l) (AfterRejection W S site b) := by
  refine (meets_validateSql site .tsql cleaned).bind fun _ => ?_
  refine (meets_fromExcept
    (Q := fun capped l => (Open W S b l ∧ Accepted S .tsql cleaned l) ∧
      W.ensureTop cleaned S.defaultTopN = .ok capped)
    (fun capped l htop hl => ⟨hl, htop⟩) fun e l _ hl => hl.1.afterRejection site e).bind
    fun capped => Meets.of_pure fun htop => ?_
  exact (meets_transpileAndRevalidate site htop).bind fun sql => meets_pure fun l hl => hl

theorem meets_cleanValidateCap (site : GuardSite) (raw : String) :
    Meets (Open W S b) (cleanValidateCap W S site raw)
      (fun r l => Open W S b l ∧ Checked W S r.1 l) (AfterRejection W S site b) :=
  (meets_fromExcept (Q := fun _ => Open W S b) (fun _ _ _ hl => hl)
    fun e _ _ hl => hl.afterRejection site e).bind fun cleaned => meets_validateAndCap site cleaned

/-- **The spelling fix** never raises and returns an approved text. -/
theorem meets_respellFilters (sql : String) :
    Meets (fun l => Open W S b l ∧ Checked W S sql l) (respellFilters W S sql)
      (fun r l => Open W S b l ∧ Approved W S r l) E := by
  unfold respellFilters
  split
  · refine (meets_observe (Q := fun fix l => (Open W S b l ∧ Checked W S sql l) ∧
      ∃ older, W.fixFilterSpelling older S.deniedColumns S.sqlDialect sql = fix)
      fun l hl => ⟨hl, l, rfl⟩).bind fun fix => Meets.of_pure fun ⟨older, hfix⟩ => ?_
    cases fix with
    | none => exact meets_pure fun l ⟨hopen, hchecked⟩ => ⟨hopen, .inl hchecked⟩
    | some rewritten =>
      refine (meets_attempt ((meets_validateSql .respelling S.sqlDialect rewritten).frame
        (persistent_checked sql))).bind fun verdict => ?_
      cases verdict with
      | ok u => exact meets_pure fun l ⟨⟨hopen, hacc⟩, hchecked⟩ =>
          ⟨hopen, .inr ⟨sql, older, hchecked, hfix, hacc⟩⟩
      | error e => exact meets_pure fun l ⟨hrejected, hchecked⟩ =>
          ⟨hrejected.reopen (by simp), .inl hchecked⟩
  · exact meets_pure fun l ⟨hopen, hchecked⟩ => ⟨hopen, .inl hchecked⟩

/-- **Execution** of an approved text. -/
theorem meets_executeQuery (sql : String) :
    Meets (fun l => Open W S b l ∧ Approved W S sql l) (executeQuery W sql)
      (fun _ => Open W S b) (fun _ => Open W S b) := by
  refine (meets_observe (Q := fun _ l => Open W S b l ∧ Approved W S sql l)
    fun l hl => hl).bind fun answer => ?_
  refine (meets_record (Q := fun _ => Open W S b) fun l hl => ?_).bind fun _ =>
    meets_fromExcept (fun _ _ _ hl => hl) fun _ _ _ hl => hl
  exact hl.1.cons hl.2 nofun rfl

/-- The budget of a loop: its rounds so far, the retry of `routing` once taken, and the value round
once checked. -/
def loopBudget (rounds : Nat) (routing : Option SourceRouting) (valueChecked : Bool) :
    CallSite → Nat
  | .attempt => rounds
  | .fallback => if routing.any (·.canFallBack) then 0 else 1
  | .valueRound => if valueChecked then 1 else 0

theorem spend_attempt {k : Nat} {routing : Option SourceRouting} {checked : Bool} :
    spend (loopBudget k routing checked) .attempt = loopBudget (k + 1) routing checked := by
  funext site
  cases site <;> rfl

theorem spend_valueRound {k : Nat} {routing : Option SourceRouting} :
    spend (loopBudget k routing false) .valueRound = loopBudget k routing true := by
  funext site
  cases site <;> rfl

theorem spend_fallback {k : Nat} {r : SourceRouting} {checked : Bool} (h : r.canFallBack = true) :
    spend (loopBudget k (some r) checked) .fallback = loopBudget k (some r.fallBack) checked := by
  funext site
  cases site with
  | attempt => rfl
  | fallback => simp [spend, loopBudget, h, SourceRouting.canFallBack_fallBack h]
  | valueRound => rfl

/-- **The budget of a request**: one call for each round, one retry, one value round. -/
def requestBudget (S : LoopSettings) : CallSite → Nat
  | .attempt => (S.maxCorrections + 1).toNat
  | .fallback => 1
  | .valueRound => 1

theorem loopBudget_le {k : Nat} {routing : Option SourceRouting} {checked : Bool}
    (hk : (k : Int) ≤ S.maxCorrections + 1) (site : CallSite) :
    loopBudget k routing checked site ≤ requestBudget S site := by
  cases site with
  | attempt =>
    simp only [loopBudget, requestBudget]
    omega
  | fallback =>
    simp only [loopBudget, requestBudget]
    split <;> omega
  | valueRound =>
    simp only [loopBudget, requestBudget]
    split <;> omega

/-- **One generation of a round**: an attempt, and a retry only out of the routing's own. -/
theorem meets_generateWithSourceFallback {k : Nat} {routing : Option SourceRouting}
    {checked : Bool} :
    Meets (Open W S (loopBudget k routing checked)) (generateWithSourceFallback W routing)
      (fun r => Open W S (loopBudget (k + 1) r.2 checked)) E := by
  refine (meets_generateForTask .attempt).bind fun answer => ?_
  rw [spend_attempt]
  cases answer with
  | ok completion => exact meets_pure fun l hl => hl
  | error e =>
    cases routing with
    | none => exact meets_pure fun l hl => hl
    | some r =>
      dsimp only
      split
      · rename_i hretry
        rw [Bool.and_eq_true] at hretry
        refine (meets_generateForTask .fallback).bind fun answer => ?_
        rw [spend_fallback hretry.2]
        exact meets_pure fun l hl => hl
      · exact meets_pure fun l hl => hl

/-- A way to fetch rows that executes approved texts only. -/
def FetchesApproved (W : LoopWorld) (S : LoopSettings) (fetch : String → LoopM DataFrame) : Prop :=
  ∀ (b : CallSite → Nat) (sql : String),
    Meets (fun l => Open W S b l ∧ Approved W S sql l) (fetch sql) (fun _ => Open W S b)
      fun _ => Open W S b

theorem fetchesApproved_executeQuery : FetchesApproved W S (executeQuery W) :=
  fun _ sql => meets_executeQuery sql

variable {acceptable : String → Except PyError Unit} {fetch : String → LoopM DataFrame}

/-- The body of a value round costs its one call, whatever it raises. -/
theorem meets_correctedStatement (hfetch : FetchesApproved W S fetch) :
    Meets (Open W S b) (correctedStatement W S acceptable fetch)
      (fun _ => Open W S (spend b .valueRound)) (fun _ => Open W S (spend b .valueRound)) := by
  refine (meets_generateForTask .valueRound).bind fun answer => ?_
  cases answer with
  | error e => exact meets_throw fun l hl => hl
  | ok completion =>
    refine ((meets_cleanValidateCap .valueRound completion.text).conseq (fun _ => id)
      (fun _ _ => id) fun e l hrejected => hrejected.reopen (by simp)).bind fun (checked, top) => ?_
    refine (meets_respellFilters checked).bind fun sql => ?_
    refine (meets_observe
      (Q := fun _ l => Open W S (spend b .valueRound) l ∧ Approved W S sql l)
      fun l hl => hl).bind fun unknown => ?_
    split
    · exact meets_throw fun l hl => hl.1
    · refine (meets_fromExcept
        (Q := fun _ l => Open W S (spend b .valueRound) l ∧ Approved W S sql l)
        (fun _ _ _ hl => hl) fun _ _ _ hl => hl.1).bind fun _ => ?_
      exact (hfetch _ sql).bind fun data => meets_pure fun l hl => hl

/-- **A value round** never raises and costs at most its one call. -/
theorem meets_filterValueRound (hfetch : FetchesApproved W S fetch) (sql : String) :
    Meets (Open W S b) (filterValueRound W S acceptable fetch sql)
      (fun _ => Open W S (spend b .valueRound)) E := by
  refine (meets_observe (Q := fun _ => Open W S b) fun l hl => hl).bind fun unknown => ?_
  split
  · refine meets_pure fun l hl => hl.mono fun site => ?_
    by_cases hsite : site = .valueRound
    · subst hsite
      simp [spend]
    · rw [spend, Function.update_of_ne hsite]
  · refine (meets_attempt (meets_correctedStatement hfetch)).bind fun outcome => ?_
    cases outcome with
    | ok corrected => exact meets_pure fun l hl => hl
    | error e => exact meets_pure fun l hl => hl

/-- **The check of a round** spends at most the one value round of the request. -/
theorem meets_filterValueCheck {k : Nat} {s : LoopState} (hfetch : FetchesApproved W S fetch)
    (sql : String) :
    Meets (Open W S (loopBudget k s.routing s.valueChecked))
      (filterValueCheck W S acceptable fetch s sql)
      (fun r => Open W S (loopBudget k r.1.routing r.1.valueChecked)) E := by
  unfold filterValueCheck
  split
  · rename_i hcheck
    refine (meets_filterValueRound hfetch sql).bind fun round => ?_
    rw [hcheck.2, spend_valueRound]
    exact meets_pure fun l hl => hl
  · exact meets_pure fun l hl => hl

end Rules

/-! ## A loop of such rounds -/

section Loops

variable {ρ σ : Type} {view : σ → LoopState} {k : Nat} {s : σ} {log : List LoopEvent}

/-- Within round `k`, after its generation; `view` reads off what the loops share. -/
abbrev RoundRunning (W : LoopWorld) (S : LoopSettings) (view : σ → LoopState) (k : Nat) (s : σ) :
    List LoopEvent → Prop :=
  Open W S (loopBudget (k + 1) (view s).routing (view s).valueChecked)

/-- The invariant before round `k`. -/
def RoundInv (W : LoopWorld) (S : LoopSettings) (view : σ → LoopState) (k : Nat) (s : σ)
    (log : List LoopEvent) : Prop :=
  Open W S (loopBudget k (view s).routing (view s).valueChecked) log ∧ (k : Int) ≤ S.maxCorrections

/-- What a decision of round `k` establishes. -/
def RoundDecided (W : LoopWorld) (S : LoopSettings) (ρ : Type) (view : σ → LoopState) (k : Nat) :
    Decision ρ σ → List LoopEvent → Prop
  | .leave _, log => Within W S (requestBudget S) log
  | .again s, log => RoundInv W S view (k + 1) s log

theorem within_request (hk : (k : Int) ≤ S.maxCorrections) {routing : Option SourceRouting}
    {checked : Bool} (h : Within W S (loopBudget (k + 1) routing checked) log) :
    Within W S (requestBudget S) log :=
  h.mono (loopBudget_le (by omega))

/-- Another round is asked for only when one is left. -/
theorem roundDecided_again (hk : (k : Int) ≤ S.maxCorrections) (hlast : (k : Int) ≠ S.maxCorrections)
    (h : RoundRunning W S view k s log) : RoundDecided W S ρ view k (.again s) log :=
  ⟨h, by omega⟩

/-- **A loop of rounds that keep the invariant**: from an empty log it stays within the budget, obeys
the law and does not run out of rounds. -/
theorem meets_rounds {round : Nat → σ → LoopM (Decision ρ σ)}
    (hround : ∀ k s, Meets (RoundInv W S view k s) (round k s) (RoundDecided W S ρ view k)
      fun _ => Within W S (requestBudget S))
    (hmax : 0 ≤ S.maxCorrections) (s : σ) :
    Meets (· = []) (forRounds round 0 (S.maxCorrections + 1).toNat s)
      (fun r l => r ≠ none ∧ Within W S (requestBudget S) l)
      (fun _ => Within W S (requestBudget S)) := by
  refine Meets.pre (forRounds_meets (I := RoundInv W S view) (N := (S.maxCorrections + 1).toNat)
    (fun k s _ => (hround k s).post fun d l hd => ?_) (fun s l hl => ?_) (Nat.zero_add _))
    fun l hl => ?_
  · cases d with
    | leave result => exact ⟨nofun, hd⟩
    | again s' => exact hd
  · have := hl.2
    omega
  · subst hl
    exact ⟨open_nil, hmax⟩

end Loops

end LocalSqlAgent
