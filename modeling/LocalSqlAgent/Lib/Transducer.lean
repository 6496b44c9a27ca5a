import Mathlib.Data.List.Basic

/-! # Transducers

A machine that reads one symbol at a time, writes some outputs for it and remembers a state; at the
end it writes what it still holds. A text cut anywhere is read in two parts, the second from the state
the first one ends in (`read_append`), so what is written behind a change of the text can be compared
with what was written before it.

* **`read_quiet`**: symbols that leave a state as it is are read as if they were absent.
* **`read_map`**: a change of state that every step commutes with changes the outputs uniformly. -/

namespace LocalSqlAgent

universe u v w

/-- **A transducer** over the states `σ`, from symbols `α` to outputs `β`. -/
structure Transducer (σ : Type u) (α : Type v) (β : Type w) where
  /-- What is written for one symbol, and the next state. -/
  step : σ → α → List β × σ
  /-- What is written at the end. -/
  finish : σ → List β

namespace Transducer

variable {σ : Type u} {α : Type v} {β : Type w} (T : Transducer σ α β)

/-- The state after some symbols. -/
def after (s : σ) (as : List α) : σ := as.foldl (fun s a => (T.step s a).2) s

/-- What is written for some symbols, the end not reached. -/
def output : σ → List α → List β
  | _, [] => []
  | s, a :: as => (T.step s a).1 ++ output (T.step s a).2 as

/-- What is written for a whole text. -/
def read (s : σ) (as : List α) : List β := T.output s as ++ T.finish (T.after s as)

variable {T} {s : σ}

@[simp] theorem after_nil : T.after s [] = s := rfl

@[simp] theorem after_cons {a : α} {as : List α} :
    T.after s (a :: as) = T.after (T.step s a).2 as := rfl

theorem after_append {as bs : List α} : T.after s (as ++ bs) = T.after (T.after s as) bs :=
  List.foldl_append

@[simp] theorem output_nil : T.output s [] = [] := rfl

@[simp] theorem output_cons {a : α} {as : List α} :
    T.output s (a :: as) = (T.step s a).1 ++ T.output (T.step s a).2 as := rfl

theorem read_nil : T.read s [] = T.finish s := rfl

theorem read_cons {a : α} {as : List α} :
    T.read s (a :: as) = (T.step s a).1 ++ T.read (T.step s a).2 as :=
  List.append_assoc _ _ _

/-- **A text is read in parts.** -/
theorem read_append {as bs : List α} :
    T.read s (as ++ bs) = T.output s as ++ T.read (T.after s as) bs := by
  induction as generalizing s with
  | nil => rfl
  | cons a as ih =>
    rw [List.cons_append, read_cons, ih, output_cons, after_cons, List.append_assoc]

/-- Symbols that write nothing and leave the state as it is. -/
theorem read_quiet {p : α → Prop} (hquiet : ∀ a, p a → T.step s a = ([], s)) {as bs : List α}
    (has : ∀ a ∈ as, p a) : T.read s (as ++ bs) = T.read s bs := by
  induction as with
  | nil => rfl
  | cons a as ih =>
    obtain ⟨ha, has⟩ := List.forall_mem_cons.mp has
    rw [List.cons_append, read_cons, hquiet a ha]
    exact ih has

section Map

variable {φ : σ → σ} {ψ : β → β}
  (hstep : ∀ s a, T.step (φ s) a = ((T.step s a).1.map ψ, φ (T.step s a).2))

include hstep

theorem after_map {as : List α} : T.after (φ s) as = φ (T.after s as) := by
  induction as generalizing s with
  | nil => rfl
  | cons a as ih => rw [after_cons, after_cons, hstep, ih]

theorem output_map {as : List α} : T.output (φ s) as = (T.output s as).map ψ := by
  induction as generalizing s with
  | nil => rfl
  | cons a as ih => rw [output_cons, output_cons, hstep, ih, List.map_append]

end Map

end Transducer

end LocalSqlAgent
