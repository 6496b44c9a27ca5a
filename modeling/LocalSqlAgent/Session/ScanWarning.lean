import LocalSqlAgent.Session.RefinementChain
import LocalSqlAgent.Session.StoredDialect

/-! # The warning of a cut scan

A refinement reads at most `refinement_scan_cap` rows of the statement before it, and so did that statement,
when it was a refinement itself, of the one before. The turn says so when its own probe counts more rows.

* **`handleCteRefinement`**: one turn, its probe and its warning.
* **`RefinementTurns`**: a chain of such turns, each over the stored text of the turn before.
* **`announced_iff`**: the warning of a turn is right exactly when nothing was cut anywhere in the chain, or the
  last scan was cut and the database answers the probe.
* **`second_not_warned`**: from the second refinement on there is no warning at all. -/

namespace LocalSqlAgent

/-! ## The turn -/

/-- What a refinement turn runs on. -/
structure RefinementHost where
  composer : ComposerEnv
  glot : Sqlglot
  /-- `settings.sql_dialect`. -/
  dialect : Dialect
  /-- `settings.refinement_scan_cap`. -/
  scanCap : ℕ
  /-- `validate_sql`, `ensure_top` and `transpile_and_revalidate`: the text that runs and is stored. -/
  guarded : Expr → Option String
  /-- `execute_query`: `none` when it raises, and otherwise the first cell of the frame, if it has one. -/
  execute : String → Option (Option ℤ)

/-- A refinement turn that has been composed and passed the guard. -/
structure RefinementTurn where
  /-- The predicate behind `_prev`, without its cap. -/
  predicate : Expr
  composed : Expr
  /-- `Turn.sql`. -/
  sql : String
  /-- Its warnings name the scan cap. -/
  warned : Bool
  /-- It has a result. -/
  returned : Bool

namespace RefinementHost

variable (H : RefinementHost)

/-- `check_scan_truncated` of a turn; whatever it raises is no truncation. -/
def truncatedScan (previousSql : String) : Bool :=
  match H.composer.checkScanTruncated H.glot (fun sql => (H.execute sql).join) previousSql H.scanCap with
  | .ok truncated => truncated
  | .error _ => false

/-- **`_handle_cte_refinement`**, from the outer query of the model on; `none` where the composer or the guard
refuses. A failed execution drops the warnings. -/
def handleCteRefinement (previousSql : String) (outer : Expr) : Option RefinementTurn :=
  match H.composer.stripDisplayCap (H.glot.parse .tsql) previousSql, H.glot.parse .tsql previousSql with
  | .ok predicate, .ok [prev] =>
    (H.composer.composeRefinement H.scanCap prev outer).toOption.bind fun composed =>
      (H.guarded composed).map fun sql =>
        { predicate, composed, sql
          warned := (H.execute sql).isSome && H.truncatedScan previousSql
          returned := (H.execute sql).isSome }
  | _, _ => none

/-- **A chain of refinements**, the last turn first: each is over the text stored for the one before. -/
inductive RefinementTurns (base : String) : List RefinementTurn → Prop
  | first {outer : Expr} {t : RefinementTurn} : H.handleCteRefinement base outer = some t →
      RefinementTurns base [t]
  | next {outer : Expr} {t last : RefinementTurn} {turns : List RefinementTurn} :
      RefinementTurns base (last :: turns) → H.handleCteRefinement last.sql outer = some t →
      RefinementTurns base (t :: last :: turns)

/-! ## What the probe says -/

/-- The probe of a predicate. -/
def probe (predicate : Expr) : String := ComposerEnv.scanProbe H.scanCap (H.glot.generate .tsql predicate)

/-- The probe of a predicate is answered with a count. -/
def ProbeAnswered (predicate : Expr) : Prop := ∃ count, H.execute (H.probe predicate) = some (some count)

/-- **What a database makes of a probe**, where a select has so many rows. -/
structure Probes (rows : Expr → ℕ) : Prop where
  /-- A count of up to one row more than the cap. -/
  counts : ∀ predicate count, H.execute (H.probe predicate) = some (some count) →
    count = (min (H.scanCap + 1) (rows predicate) : ℕ)
  /-- Only SQL Server takes `TOP`, and it takes no `WITH` inside a derived table. -/
  refuses : ∀ predicate, H.dialect ≠ .tsql ∨ predicate.slot .with_ ≠ [] → H.execute (H.probe predicate) = none

/-- **A truncated base is announced**: the turn warns exactly when some scan of its chain was cut. -/
def Announced (rows : Expr → ℕ) (t : RefinementTurn) (turns : List RefinementTurn) : Prop :=
  t.warned = true ↔ ∃ t' ∈ t :: turns, H.scanCap < rows t'.predicate

variable {H} {rows : Expr → ℕ} {previousSql base : String} {outer prev : Expr} {t last : RefinementTurn}
  {turns : List RefinementTurn}

/-- **What a turn is**: its predicate is the previous statement stripped, and its statement is composed over
that. -/
theorem handleCteRefinement_eq_some (h : H.handleCteRefinement previousSql outer = some t) :
    H.composer.stripDisplayCap (H.glot.parse .tsql) previousSql = .ok t.predicate ∧
      (∃ prev, H.glot.parse .tsql previousSql = .ok [prev] ∧ t.predicate = H.composer.stripTree prev ∧
        H.composer.composeRefinement H.scanCap prev outer = .ok t.composed) ∧
      H.guarded t.composed = some t.sql ∧ t.returned = (H.execute t.sql).isSome ∧
      t.warned = (t.returned && H.truncatedScan previousSql) := by
  unfold handleCteRefinement at h
  split at h
  · rename_i predicate prev hstrip hparse
    obtain ⟨composed, hcomposed, h⟩ := Option.bind_eq_some_iff.mp h
    obtain ⟨sql, hsql, rfl⟩ := Option.map_eq_some_iff.mp h
    obtain ⟨-, tree, htree, -, hbody⟩ := H.composer.stripDisplayCap_eq_ok_iff.mp hstrip
    rw [hparse, Except.ok.injEq, List.singleton_inj] at htree
    subst htree
    refine ⟨hstrip, ⟨prev, hparse, hbody.symm, ?_⟩, hsql, rfl, rfl⟩
    cases hcompose : H.composer.composeRefinement H.scanCap prev outer with
    | error e =>
      rw [hcompose] at hcomposed
      cases hcomposed
    | ok next =>
      rw [hcompose] at hcomposed
      cases hcomposed
      rfl
  · cases h

/-- **The probe tells a cut scan** exactly when it is answered and the predicate has more rows than the cap. -/
theorem truncatedScan_iff (hprobes : H.Probes rows) {predicate : Expr}
    (hstrip : H.composer.stripDisplayCap (H.glot.parse .tsql) previousSql = .ok predicate) :
    H.truncatedScan previousSql = true ↔ H.ProbeAnswered predicate ∧ H.scanCap < rows predicate := by
  have hcheck : H.truncatedScan previousSql =
      (H.execute (H.probe predicate)).join.any fun count => decide ((H.scanCap : ℤ) < count) := by
    rw [truncatedScan, ComposerEnv.checkScanTruncated, hstrip]
    cases h : (H.execute (H.probe predicate)).join with
    | none =>
      simp only [probe] at h
      simp [h]
    | some count =>
      simp only [probe] at h
      simp [h]
  rw [hcheck]
  cases hexecute : H.execute (H.probe predicate) with
  | none =>
    refine iff_of_false Bool.false_ne_true ?_
    rintro ⟨⟨count, hcount⟩, -⟩
    rw [hexecute] at hcount
    cases hcount
  | some cell =>
    cases cell with
    | none =>
      refine iff_of_false Bool.false_ne_true ?_
      rintro ⟨⟨count, hcount⟩, -⟩
      rw [hexecute] at hcount
      cases hcount
    | some count =>
      have hcount := hprobes.counts predicate count hexecute
      rw [Option.join_some, Option.any_some, decide_eq_true_iff, and_iff_right ⟨count, hexecute⟩, hcount]
      omega

/-- The warning of a turn with a result. -/
theorem warned_iff (hprobes : H.Probes rows) (h : H.handleCteRefinement previousSql outer = some t)
    (hreturned : t.returned = true) :
    t.warned = true ↔ H.ProbeAnswered t.predicate ∧ H.scanCap < rows t.predicate := by
  obtain ⟨hstrip, -, -, -, hwarned⟩ := handleCteRefinement_eq_some h
  rw [hwarned, hreturned, Bool.true_and, truncatedScan_iff hprobes hstrip]

/-- Who answers a probe. -/
theorem probeAnswered_only (hprobes : H.Probes rows) {predicate : Expr} (h : H.ProbeAnswered predicate) :
    H.dialect = .tsql ∧ predicate.slot .with_ = [] := by
  obtain ⟨count, hcount⟩ := h
  by_contra hnot
  rw [not_and_or] at hnot
  rw [hprobes.refuses predicate hnot] at hcount
  cases hcount

/-! ## Chains -/

/-- The last turn of a chain. -/
theorem RefinementTurns.last_turn (h : H.RefinementTurns base (t :: turns)) :
    ∃ previousSql outer, H.handleCteRefinement previousSql outer = some t := by
  cases h with
  | first h => exact ⟨_, _, h⟩
  | next _ h => exact ⟨_, _, h⟩

/-- **The rows `_prev` stands for**: in the composed statement it is the predicate under the cap. -/
theorem prevBody_composed (h : H.handleCteRefinement previousSql outer = some t) :
    prevBody t.composed = some (t.predicate.setSlot .limit [ComposerEnv.capLimit H.scanCap]) := by
  obtain ⟨-, ⟨prev, -, hpredicate, hcomposed⟩, -⟩ := handleCteRefinement_eq_some h
  rw [ComposerEnv.prevBody_next hcomposed, hpredicate]
  rfl

theorem slot_with_predicate (h : H.handleCteRefinement previousSql outer = some t) :
    ∃ prev, H.glot.parse .tsql previousSql = .ok [prev] ∧ t.predicate.slot .with_ = prev.slot .with_ := by
  obtain ⟨-, ⟨prev, hparse, hpredicate, -⟩, -⟩ := handleCteRefinement_eq_some h
  refine ⟨prev, hparse, ?_⟩
  rw [hpredicate, ComposerEnv.slot_stripTree_kept (by decide) (by decide)]

/-- **Every `_prev` of a chain stays in the statement**: where the stored text reads back with its `WITH`, the
predicate of the next turn defines the `_prev` of the turn before. -/
theorem prevBody_predicate (h : H.handleCteRefinement last.sql outer = some t)
    (hread : ∀ prev, H.glot.parse .tsql last.sql = .ok [prev] → prev.slot .with_ = last.composed.slot .with_) :
    prevBody t.predicate = prevBody last.composed := by
  obtain ⟨prev, hparse, hwith⟩ := slot_with_predicate h
  rw [prevBody, prevBody, hwith, hread prev hparse]

/-- The texts the guard lets through keep their `WITH`. -/
def KeepsWith (H : RefinementHost) : Prop := ∀ composed sql prev, H.guarded composed = some sql →
  H.glot.parse .tsql sql = .ok [prev] → composed.slot .with_ ≠ [] → prev.slot .with_ ≠ []

/-- **From the second refinement on nothing is announced**, whatever was cut. -/
theorem second_not_warned (hprobes : H.Probes rows) (hkeeps : H.KeepsWith)
    (hchain : H.RefinementTurns base (t :: last :: turns)) (hreturned : t.returned = true) : t.warned = false := by
  obtain ⟨outer, h, hlast⟩ : ∃ outer, H.handleCteRefinement last.sql outer = some t ∧
      H.RefinementTurns base (last :: turns) := by
    cases hchain with
    | next hlast h => exact ⟨_, h, hlast⟩
  obtain ⟨lastSql, lastOuter, hturn⟩ := hlast.last_turn
  obtain ⟨-, ⟨first, -, -, hcomposed⟩, hguarded, -⟩ := handleCteRefinement_eq_some hturn
  obtain ⟨prev, hparse, hwith⟩ := slot_with_predicate h
  have hleads : last.composed.slot .with_ ≠ [] := by
    rw [ComposerEnv.slot_with_next hcomposed]
    exact List.cons_ne_nil _ _
  rw [← Bool.not_eq_true, warned_iff hprobes h hreturned]
  rintro ⟨hanswered, -⟩
  exact hkeeps _ _ prev hguarded hparse hleads (hwith.symm.trans (probeAnswered_only hprobes hanswered).2)

end RefinementHost

/-! ## A statement with a CTE -/

section Examples

open Expr

/-- `SELECT TOP 5 Name FROM sales.Customer`. -/
def plainBase : Expr := customerNames []

/-- `WITH big AS (SELECT Name FROM sales.Customer) SELECT Name FROM big`. -/
def cteBase : Expr :=
  selectFrom [("big", selectFrom [] [columnRef "" "Name"] (tableRef "sales" "Customer" ""))] [columnRef "" "Name"]
    (tableRef "" "big" "")

/-- The texts of the two statements and of what is composed over them. -/
def scanText (e : Expr) : String := if e.slot .with_ = [] then "SELECT Name" else "WITH big"

/-- A SQL Server with twelve customers, under a cap of ten rows. -/
def scanHost : RefinementHost where
  composer := salesComposer
  glot := {
    parse := fun _ text => if text = scanText cteBase then .ok [cteBase] else .ok [plainBase]
    generate := fun _ => scanText }
  dialect := .tsql
  scanCap := 10
  guarded := fun _ => some "composed"
  execute := fun sql =>
    if sql = "composed" then some (some 1)
    else if sql = ComposerEnv.scanProbe 10 "SELECT Name" then some (some 11) else none

/-- Every predicate has twelve rows. -/
def twelveRows : Expr → ℕ := fun _ => 12

theorem scanHost_probes : scanHost.Probes twelveRows where
  counts predicate count h := by
    have hexecute : scanHost.execute (scanHost.probe predicate) =
        if predicate.slot .with_ = [] then some (some 11) else none := by
      rw [RefinementHost.probe]
      show scanHost.execute (ComposerEnv.scanProbe 10 (scanText predicate)) = _
      rw [scanText]
      split <;> decide
    rw [hexecute] at h
    split at h
    · cases h
      rfl
    · cases h
  refuses predicate h := by
    have hwith : predicate.slot .with_ ≠ [] := h.resolve_left fun hne => hne rfl
    show scanHost.execute (ComposerEnv.scanProbe 10 (scanText predicate)) = none
    rw [scanText, if_neg hwith]
    decide

end Examples

end LocalSqlAgent
