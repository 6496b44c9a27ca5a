import Mathlib.Data.List.Basic
import Mathlib.Data.List.Infix

/-! # Programs over an event log

A program that talks to the outside appends an event to a log (newest first) for every call it makes,
and what a call answers is a function of the log so far: quantifying over that function quantifies
over every environment.

* **`LogM`**: such a program, which may also raise.
* **`Meets P m Q E`**: from a log that meets `P`, the log only grows, a returned value meets `Q` and a
  raised exception meets `E`. Growth is part of the triple, so every fact that survives growth frames
  (`Meets.frame`).
* **`forRounds`**: a counted loop whose rounds either leave with a result or go on, with its invariant
  rule `forRounds_meets`.
* **`Lawful ok`**: every event of a log is allowed by the events before it. -/

namespace LocalSqlAgent

/-- **Programs over a log** of events `ε`, raising exceptions `κ`. -/
abbrev LogM (ε κ : Type) : Type → Type := ExceptT κ (StateM (List ε))

namespace LogM

variable {ε κ κ' α β : Type}

/-- The outcome and the final log. -/
def exec (m : LogM ε κ α) (log : List ε) : Except κ α × List ε := m log

/-- Append an event. -/
def record (e : ε) : LogM ε κ Unit := fun log => (.ok (), e :: log)

/-- Read off the log. -/
def observe (f : List ε → α) : LogM ε κ α := fun log => (.ok (f log), log)

/-- A computed value or exception. -/
def fromExcept (x : Except κ α) : LogM ε κ α := fun log => (x, log)

/-- **`try`**: the outcome as a value, so that what follows runs outside the handler. -/
def attempt (m : LogM ε κ α) : LogM ε κ' (Except κ α) := fun log =>
  (.ok (m.exec log).1, (m.exec log).2)

theorem exec_pure (a : α) (log : List ε) : (pure a : LogM ε κ α).exec log = (.ok a, log) := rfl

theorem exec_bind (m : LogM ε κ α) (f : α → LogM ε κ β) (log : List ε) :
    (m >>= f).exec log =
      match (m.exec log).1 with
      | .ok a => (f a).exec (m.exec log).2
      | .error e => (.error e, (m.exec log).2) := by
  change (ExceptT.bind m f) log = _
  rw [ExceptT.bind, ExceptT.mk]
  change (StateT.bind m (ExceptT.bindCont f)) log = _
  rw [StateT.bind]
  cases h : m log with
  | mk outcome log' =>
    simp only [exec, h]
    cases outcome with
    | ok a => rfl
    | error e => rfl

/-- **A sequence that returned**: its first part did, and what followed did from there. -/
theorem exec_bind_ok {m : LogM ε κ α} {f : α → LogM ε κ β} {b : β} {log log' : List ε}
    (h : (m >>= f).exec log = (.ok b, log')) :
    ∃ a mid, m.exec log = (.ok a, mid) ∧ (f a).exec mid = (.ok b, log') := by
  rw [exec_bind] at h
  cases hm : (m.exec log).1 with
  | ok a =>
    rw [hm] at h
    exact ⟨a, (m.exec log).2, Prod.ext hm rfl, h⟩
  | error e =>
    rw [hm] at h
    cases h

/-- What follows a `try` goes on from the outcome, whichever it is. -/
theorem exec_attempt_bind (m : LogM ε κ α) (f : Except κ α → LogM ε κ' β) (log : List ε) :
    ((attempt m : LogM ε κ' (Except κ α)) >>= f).exec log = (f (m.exec log).1).exec (m.exec log).2 := by
  rw [exec_bind]
  rfl

end LogM

open LogM

/-! ## Triples -/

section Triples

variable {ε κ κ' α β ρ σ : Type}
variable {P P' R : List ε → Prop} {Q Q' : α → List ε → Prop} {E E' : κ → List ε → Prop}

/-- **The triple**: from `P`, the log grows and the outcome meets `Q` or `E`. -/
def Meets (P : List ε → Prop) (m : LogM ε κ α) (Q : α → List ε → Prop) (E : κ → List ε → Prop) :
    Prop :=
  ∀ log, P log → log <:+ (m.exec log).2 ∧
    match (m.exec log).1 with
    | .ok a => Q a (m.exec log).2
    | .error e => E e (m.exec log).2

/-- A fact about logs that growth keeps. -/
def Persistent (R : List ε → Prop) : Prop := ∀ l l', l <:+ l' → R l → R l'

theorem Persistent.and {R' : List ε → Prop} (h : Persistent R) (h' : Persistent R') :
    Persistent fun l => R l ∧ R' l :=
  fun l l' hl hR => ⟨h l l' hl hR.1, h' l l' hl hR.2⟩

/-- **Consequence.** -/
theorem Meets.conseq {m : LogM ε κ α} (h : Meets P m Q E) (hP : ∀ l, P' l → P l)
    (hQ : ∀ a l, Q a l → Q' a l) (hE : ∀ e l, E e l → E' e l) : Meets P' m Q' E' := by
  intro log hlog
  obtain ⟨hgrow, hpost⟩ := h log (hP log hlog)
  refine ⟨hgrow, ?_⟩
  cases hres : (m.exec log).1 with
  | ok a =>
    rw [hres] at hpost
    exact hQ a _ hpost
  | error e =>
    rw [hres] at hpost
    exact hE e _ hpost

theorem Meets.pre {m : LogM ε κ α} (h : Meets P m Q E) (hP : ∀ l, P' l → P l) : Meets P' m Q E :=
  h.conseq hP (fun _ _ => id) fun _ _ => id

theorem Meets.post {m : LogM ε κ α} (h : Meets P m Q E) (hQ : ∀ a l, Q a l → Q' a l) :
    Meets P m Q' E :=
  h.conseq (fun _ => id) hQ fun _ _ => id

/-- **Frame**: what growth keeps is kept. -/
theorem Meets.frame {m : LogM ε κ α} (h : Meets P m Q E) (hR : Persistent R) :
    Meets (fun l => P l ∧ R l) m (fun a l => Q a l ∧ R l) (fun e l => E e l ∧ R l) := by
  rintro log ⟨hP, hRlog⟩
  obtain ⟨hgrow, hpost⟩ := h log hP
  have hkept := hR _ _ hgrow hRlog
  refine ⟨hgrow, ?_⟩
  cases hres : (m.exec log).1 with
  | ok a =>
    rw [hres] at hpost
    exact ⟨hpost, hkept⟩
  | error e =>
    rw [hres] at hpost
    exact ⟨hpost, hkept⟩

/-- Frame for what follows a return. -/
theorem Meets.frame_ok {m : LogM ε κ α} (h : Meets P m Q E) (hR : Persistent R) :
    Meets (fun l => P l ∧ R l) m (fun a l => Q a l ∧ R l) E :=
  (h.frame hR).conseq (fun _ => id) (fun _ _ => id) fun _ _ hE => hE.1

/-- A precondition that says nothing about the log is a hypothesis. -/
theorem Meets.of_pure {p : Prop} {m : LogM ε κ α} (h : p → Meets P m Q E) :
    Meets (fun l => P l ∧ p) m Q E :=
  fun log hlog => h hlog.2 log hlog.1

theorem meets_pure {a : α} (h : ∀ l, P l → Q a l) : Meets P (pure a : LogM ε κ α) Q E :=
  fun log hlog => ⟨List.suffix_rfl, h log hlog⟩

theorem meets_throw {e : κ} (h : ∀ l, P l → E e l) : Meets P (throw e : LogM ε κ α) Q E :=
  fun log hlog => ⟨List.suffix_rfl, h log hlog⟩

/-- **Sequencing.** -/
theorem Meets.bind {m : LogM ε κ α} {f : α → LogM ε κ β} {S : β → List ε → Prop}
    (hm : Meets P m Q E) (hf : ∀ a, Meets (Q a) (f a) S E) : Meets P (m >>= f) S E := by
  intro log hlog
  obtain ⟨hgrow, hpost⟩ := hm log hlog
  rw [exec_bind]
  cases hres : (m.exec log).1 with
  | ok a =>
    rw [hres] at hpost
    obtain ⟨hgrow', hpost'⟩ := hf a _ hpost
    exact ⟨hgrow.trans hgrow', hpost'⟩
  | error e =>
    rw [hres] at hpost
    exact ⟨hgrow, hpost⟩

theorem meets_record {e : ε} {Q : Unit → List ε → Prop} (h : ∀ l, P l → Q () (e :: l)) :
    Meets P (record e : LogM ε κ Unit) Q E :=
  fun log hlog => ⟨List.suffix_cons e log, h log hlog⟩

theorem meets_observe {f : List ε → α} (h : ∀ l, P l → Q (f l) l) :
    Meets P (observe f : LogM ε κ α) Q E :=
  fun log hlog => ⟨List.suffix_rfl, h log hlog⟩

theorem meets_fromExcept {x : Except κ α} (hQ : ∀ a l, x = .ok a → P l → Q a l)
    (hE : ∀ e l, x = .error e → P l → E e l) : Meets P (fromExcept x : LogM ε κ α) Q E := by
  intro log hlog
  refine ⟨List.suffix_rfl, ?_⟩
  cases x with
  | ok a => exact hQ a log rfl hlog
  | error e => exact hE e log rfl hlog

/-- **`try`**: both outcomes are values. -/
theorem meets_attempt {m : LogM ε κ α} {E' : κ' → List ε → Prop} (h : Meets P m Q E) :
    Meets P (attempt m : LogM ε κ' (Except κ α))
      (fun r l => match r with | .ok a => Q a l | .error e => E e l) E' :=
  fun log hlog => h log hlog

end Triples

/-! ## Counted loops -/

section Rounds

variable {ε κ ρ σ : Type}

/-- What a round decides: leave the loop, or go on in a new state. -/
inductive Decision (ρ σ : Type) where
  | leave (result : ρ)
  | again (state : σ)

/-- **A counted loop**: at most `n` rounds, numbered from `k`; `none` when the last round asks for
another one. -/
def forRounds (round : Nat → σ → LogM ε κ (Decision ρ σ)) : Nat → Nat → σ → LogM ε κ (Option ρ)
  | _, 0, _ => pure none
  | k, n + 1, s => do
    match ← round k s with
    | .leave result => return some result
    | .again s' => forRounds round (k + 1) n s'

/-- **The invariant rule**: a round that keeps the invariant from each number to the next, and
establishes the postcondition where it leaves. -/
theorem forRounds_meets {round : Nat → σ → LogM ε κ (Decision ρ σ)} {N : Nat}
    {I : Nat → σ → List ε → Prop} {Q : Option ρ → List ε → Prop} {E : κ → List ε → Prop}
    (hround : ∀ k s, k < N → Meets (I k s) (round k s)
      (fun d l => match d with | .leave result => Q (some result) l | .again s' => I (k + 1) s' l)
      E)
    (hend : ∀ s l, I N s l → Q none l) {n k : Nat} {s : σ} (hstop : k + n = N) :
    Meets (I k s) (forRounds round k n s) Q E := by
  induction n generalizing k s with
  | zero =>
    cases hstop
    exact meets_pure fun l hl => hend s l hl
  | succ n ih =>
    refine (hround k s (by omega)).bind fun d => ?_
    cases d with
    | leave result => exact meets_pure fun l hl => hl
    | again s' => exact ih (by omega)

end Rounds

/-! ## Lawful logs -/

section Lawful

variable {ε : Type} {ok : List ε → ε → Prop}

/-- Every event is allowed by the events before it. -/
def Lawful (ok : List ε → ε → Prop) : List ε → Prop
  | [] => True
  | e :: older => ok older e ∧ Lawful ok older

/-- **What lawfulness says** of any event of the log. -/
theorem lawful_iff {log : List ε} :
    Lawful ok log ↔ ∀ newer e older, log = newer ++ e :: older → ok older e := by
  induction log with
  | nil => simp [Lawful]
  | cons e older ih =>
    rw [Lawful, ih]
    constructor
    · rintro ⟨hhead, htail⟩ newer e' older' hsplit
      cases newer with
      | nil =>
        rw [List.nil_append, List.cons.injEq] at hsplit
        obtain ⟨rfl, rfl⟩ := hsplit
        exact hhead
      | cons n newer =>
        rw [List.cons_append, List.cons.injEq] at hsplit
        exact htail newer e' older' hsplit.2
    · intro h
      refine ⟨h [] e older rfl, fun newer e' older' hsplit => ?_⟩
      exact h (e :: newer) e' older' (by rw [hsplit, List.cons_append])

end Lawful

end LocalSqlAgent
