import Mathlib.Data.List.Basic

/-! # Labelled transitions and conditioned runs

A system whose steps are computed: `step s l` is the state after taking the label `l` in `s`, `none`
when `l` is not enabled there. Every nondeterministic choice is in the label, so a run is a list of
labels and can be evaluated.

* **`run`**: the state a list of labels leads to.
* **`RunWhere P`**: the runs whose every step, taken in state `s` under label `l`, meets `P s l`; with
  `P` always true these are all runs (`run_eq_some_iff`).
* **`RunWhere.iff_run_and`**: a condition that a property of the last state records.
* **`RunWhere.invariant`**: what holds initially and is preserved by every step that meets `P` holds
  in every state such a run reaches. -/

namespace LocalSqlAgent

universe u v

variable {σ : Type u} {ℓ : Type v} {step : σ → ℓ → Option σ} {P Q : σ → ℓ → Prop}

/-- The state a list of labels leads to. -/
def run (step : σ → ℓ → Option σ) : σ → List ℓ → Option σ
  | s, [] => some s
  | s, l :: ls => (step s l).bind fun s' => run step s' ls

@[simp] theorem run_nil (s : σ) : run step s [] = some s := rfl

theorem run_cons (s : σ) (l : ℓ) (ls : List ℓ) :
    run step s (l :: ls) = (step s l).bind fun s' => run step s' ls := rfl

theorem run_append (s : σ) (ls ls' : List ℓ) :
    run step s (ls ++ ls') = (run step s ls).bind fun s' => run step s' ls' := by
  induction ls generalizing s with
  | nil => rfl
  | cons l ls ih =>
    rw [List.cons_append, run_cons, run_cons, Option.bind_assoc]
    exact congrArg _ (funext fun s' => ih s')

/-- **Conditioned runs**: each step is enabled and meets `P` in the state it is taken in. -/
inductive RunWhere (step : σ → ℓ → Option σ) (P : σ → ℓ → Prop) : σ → List ℓ → σ → Prop
  | nil (s : σ) : RunWhere step P s [] s
  | cons {s s' s'' : σ} {l : ℓ} {ls : List ℓ} : P s l → step s l = some s' →
      RunWhere step P s' ls s'' → RunWhere step P s (l :: ls) s''

/-- Every run is a run under the trivial condition. -/
theorem run_eq_some_iff {s s' : σ} {ls : List ℓ} :
    run step s ls = some s' ↔ RunWhere step (fun _ _ => True) s ls s' := by
  constructor
  · intro h
    induction ls generalizing s with
    | nil =>
      cases h
      exact .nil _
    | cons l ls ih =>
      rw [run_cons] at h
      obtain ⟨s₁, hstep, hrest⟩ := Option.bind_eq_some_iff.mp h
      exact .cons trivial hstep (ih hrest)
  · intro h
    induction h with
    | nil s => rfl
    | cons _ hstep _ ih => rw [run_cons, hstep, Option.bind_some, ih]

/-- A weaker condition admits more runs. -/
theorem RunWhere.mono {s s' : σ} {ls : List ℓ} (h : RunWhere step P s ls s')
    (hPQ : ∀ s l, P s l → Q s l) : RunWhere step Q s ls s' := by
  induction h with
  | nil s => exact .nil s
  | cons hP hstep _ ih => exact .cons (hPQ _ _ hP) hstep ih

/-- **The invariant rule.** -/
theorem RunWhere.invariant {I : σ → Prop} {s s' : σ} {ls : List ℓ}
    (h : RunWhere step P s ls s') (hinit : I s)
    (hpres : ∀ s l s', I s → P s l → step s l = some s' → I s') : I s' := by
  induction h with
  | nil s => exact hinit
  | cons hP hstep _ ih => exact ih (hpres _ _ _ hinit hP hstep)

/-- **Conditions that agree on the steps taken while an invariant holds** admit the same runs, when the
steps that meet the first keep the invariant. -/
theorem RunWhere.congr_of_step {I : σ → Prop} {s s' : σ} {ls : List ℓ} (hinit : I s)
    (hkept : ∀ s l s', I s → P s l → step s l = some s' → I s')
    (hPQ : ∀ s l s', I s → step s l = some s' → (P s l ↔ Q s l)) :
    RunWhere step P s ls s' ↔ RunWhere step Q s ls s' := by
  induction ls generalizing s with
  | nil =>
    constructor <;> intro h <;> cases h <;> exact .nil _
  | cons l ls ih =>
    constructor
    · intro h
      cases h with
      | cons hP hstep hrest =>
        exact .cons ((hPQ _ _ _ hinit hstep).mp hP) hstep ((ih (hkept _ _ _ hinit hP hstep)).mp hrest)
    · intro h
      cases h with
      | cons hQ hstep hrest =>
        have hP := (hPQ _ _ _ hinit hstep).mpr hQ
        exact .cons hP hstep ((ih (hkept _ _ _ hinit hP hstep)).mpr hrest)

/-- Conditions that agree while an invariant holds admit the same runs. -/
theorem RunWhere.congr_of_kept {I : σ → Prop} {s s' : σ} {ls : List ℓ} (hinit : I s)
    (hkept : ∀ s l s', I s → P s l → step s l = some s' → I s') (hPQ : ∀ s l, I s → (P s l ↔ Q s l)) :
    RunWhere step P s ls s' ↔ RunWhere step Q s ls s' :=
  congr_of_step hinit hkept fun s l _ hI _ => hPQ s l hI

/-- Conditions that agree under an invariant of every step admit the same runs. -/
theorem RunWhere.congr_of_invariant {I : σ → Prop} {s s' : σ} {ls : List ℓ} (hinit : I s)
    (hpres : ∀ s l s', I s → step s l = some s' → I s') (hPQ : ∀ s l, I s → (P s l ↔ Q s l)) :
    RunWhere step P s ls s' ↔ RunWhere step Q s ls s' :=
  congr_of_kept hinit (fun s l s' hI _ hstep => hpres s l s' hI hstep) hPQ

/-- **Conditions that a property of the state records**: under an invariant, each step leaves `J` true
exactly when it was true and the step meets `P`. Then the runs that meet `P` are the runs that end in `J`. -/
theorem RunWhere.iff_run_and {I J : σ → Prop} {s s' : σ} {ls : List ℓ} (hI : I s) (hJ : J s)
    (hpres : ∀ s l s', I s → step s l = some s' → I s')
    (hstep : ∀ s l s', I s → step s l = some s' → (J s' ↔ J s ∧ P s l)) :
    RunWhere step P s ls s' ↔ run step s ls = some s' ∧ J s' := by
  have back : ∀ {ls : List ℓ} {s : σ}, I s → run step s ls = some s' → J s' → J s := by
    intro ls
    induction ls with
    | nil =>
      intro s _ hrun hend
      cases hrun
      exact hend
    | cons l ls ih =>
      intro s hI hrun hend
      obtain ⟨s₁, hs₁, hrest⟩ := Option.bind_eq_some_iff.mp hrun
      exact ((hstep s l s₁ hI hs₁).mp (ih (hpres s l s₁ hI hs₁) hrest hend)).1
  constructor
  · intro h
    refine ⟨run_eq_some_iff.mpr (h.mono fun _ _ _ => trivial), ?_⟩
    exact (h.invariant (I := fun s => I s ∧ J s) ⟨hI, hJ⟩ fun s l s' hs hP hs' =>
      ⟨hpres s l s' hs.1 hs', (hstep s l s' hs.1 hs').mpr ⟨hs.2, hP⟩⟩).2
  · rintro ⟨hrun, hend⟩
    induction ls generalizing s with
    | nil =>
      cases hrun
      exact .nil _
    | cons l ls ih =>
      obtain ⟨s₁, hs₁, hrest⟩ := Option.bind_eq_some_iff.mp hrun
      have hI₁ := hpres s l s₁ hI hs₁
      have hJ₁ := back hI₁ hrest hend
      exact .cons ((hstep s l s₁ hI hs₁).mp hJ₁).2 hs₁ (ih hI₁ hJ₁ hrest)

/-- **A run that breaks a condition**: what the steps that meet `P` keep fails where the run ends. -/
theorem not_runWhere_of_run {I : σ → Prop} {s s' : σ} {ls : List ℓ} (hrun : run step s ls = some s')
    (hinit : I s) (hkept : ∀ s l s', I s → P s l → step s l = some s' → I s') (hbroken : ¬ I s') :
    ∀ s'', ¬ RunWhere step P s ls s'' := by
  intro s'' h
  have hend : run step s ls = some s'' := run_eq_some_iff.mpr (h.mono fun _ _ _ => trivial)
  obtain rfl : s' = s'' := Option.some_inj.mp (hrun.symm.trans hend)
  exact hbroken (h.invariant hinit hkept)

/-- Run a list of labels, stopping where the condition fails. -/
def runWhere (step : σ → ℓ → Option σ) (P : σ → ℓ → Prop) [∀ s l, Decidable (P s l)] :
    σ → List ℓ → Option σ
  | s, [] => some s
  | s, l :: ls => if P s l then (step s l).bind fun s' => runWhere step P s' ls else none

/-- What `runWhere` computes is a conditioned run. -/
theorem runWhere_sound [∀ s l, Decidable (P s l)] {s s' : σ} {ls : List ℓ}
    (h : runWhere step P s ls = some s') : RunWhere step P s ls s' := by
  induction ls generalizing s with
  | nil =>
    cases h
    exact .nil _
  | cons l ls ih =>
    rw [runWhere] at h
    split at h
    · obtain ⟨s₁, hstep, hrest⟩ := Option.bind_eq_some_iff.mp h
      exact .cons ‹_› hstep (ih hrest)
    · cases h

end LocalSqlAgent
