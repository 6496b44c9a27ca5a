import Mathlib.Data.List.Forall2

/-! # Texts of the same words

Two texts with the same words in the same order differ in what stands between the words only: some white
space, whatever it is and however much. Whether white space has just been read is a flag, so that both texts
can be read side by side, a word's symbols together and each gap on its own.

* **`Respaced`**: the same words, by the pairs of symbols read together.
* **`tight_eq_iff`**: equivalently, the same text once every gap is one blank.
* **`Respaced.left_gap`**: a gap of one text is a gap of the other. -/

namespace LocalSqlAgent

universe u

variable {α : Type u}

/-- **The same words**: `p` and `q` say whether white space has just been read in the first text and in the
second one. -/
inductive Respaced (space : α → Bool) : Bool → List α → Bool → List α → Prop
  | nil {p q : Bool} : Respaced space p [] q []
  | left {p q : Bool} {c : α} {a b : List α} (hc : space c = true) (h : Respaced space true a q b) :
      Respaced space p (c :: a) q b
  | right {p q : Bool} {c : α} {a b : List α} (hc : space c = true) (h : Respaced space p a true b) :
      Respaced space p a q (c :: b)
  | char {p : Bool} {c : α} {a b : List α} (hc : space c = false) (h : Respaced space false a false b) :
      Respaced space p (c :: a) p (c :: b)

/-- Every run of white space made one blank, and none at the end; `gap` is whether white space has just been
read. -/
def tight (space : α → Bool) (blank : α) : Bool → List α → List α
  | _, [] => []
  | gap, c :: cs =>
    if space c then tight space blank true cs
    else if gap then blank :: c :: tight space blank false cs
    else c :: tight space blank false cs

variable {space : α → Bool} {blank c : α} {p q : Bool} {a b u : List α}

theorem tight_space (hc : space c = true) : tight space blank p (c :: a) = tight space blank true a := by
  rw [tight, if_pos hc]

theorem tight_char (hc : space c = false) :
    tight space blank p (c :: a) = if p then blank :: c :: tight space blank false a else c :: tight space blank false a := by
  rw [tight, if_neg (by rw [hc]; exact Bool.false_ne_true)]

theorem tight_char_ne_nil (hc : space c = false) : tight space blank p (c :: a) ≠ [] := by
  rw [tight_char hc]
  split
  · exact List.cons_ne_nil _ _
  · exact List.cons_ne_nil _ _

/-- Read past white space, a text that is not over begins with the blank. -/
theorem tight_cons_inj (hblank : space blank = true) {d : α} (hc : space c = false) (hd : space d = false)
    (h : tight space blank p (c :: a) = tight space blank q (d :: b)) :
    p = q ∧ c = d ∧ tight space blank false a = tight space blank false b := by
  have hne : ∀ {x : α}, space x = false → x ≠ blank := by
    rintro x hx rfl
    rw [hblank] at hx
    cases hx
  rw [tight_char hc, tight_char hd] at h
  cases p with
  | false =>
    cases q with
    | false =>
      obtain ⟨rfl, hrest⟩ := List.cons_eq_cons.mp h
      exact ⟨rfl, rfl, hrest⟩
    | true => exact absurd (List.cons_eq_cons.mp h).1 (hne hc)
  | true =>
    cases q with
    | false => exact absurd (List.cons_eq_cons.mp h).1.symm (hne hd)
    | true =>
      obtain ⟨rfl, hrest⟩ := List.cons_eq_cons.mp (List.cons_eq_cons.mp h).2
      exact ⟨rfl, rfl, hrest⟩

/-- **The same words are the same text**, once every gap is one blank. -/
theorem tight_eq_iff (hblank : space blank = true) :
    tight space blank p a = tight space blank q b ↔ Respaced space p a q b := by
  constructor
  · induction a generalizing p q b with
    | nil =>
      induction b generalizing q with
      | nil => exact fun _ => .nil
      | cons d b ih =>
        intro h
        cases hd : space d with
        | true =>
          rw [tight_space hd] at h
          exact .right hd (ih h)
        | false => exact absurd h.symm (tight_char_ne_nil hd)
    | cons c a iha =>
      intro h
      cases hc : space c with
      | true =>
        rw [tight_space hc] at h
        exact .left hc (iha h)
      | false =>
        induction b generalizing q with
        | nil => exact absurd h (tight_char_ne_nil hc)
        | cons d b ihb =>
          cases hd : space d with
          | true =>
            rw [tight_space hd] at h
            exact .right hd (ihb h)
          | false =>
            obtain ⟨rfl, rfl, hrest⟩ := tight_cons_inj hblank hc hd h
            exact .char hc (iha hrest)
  · intro h
    induction h with
    | nil => rfl
    | left hc _ ih => rw [tight_space hc, ih]
    | right hc _ ih => rw [tight_space hc, ih]
    | char hc _ ih => rw [tight_char hc, tight_char hc, ih]

namespace Respaced

/-- Where the second text has read white space, so has the first, or it is about to, or it is over. -/
theorem left_gap (h : Respaced space p a q b) (hq : q = true) : p = true ∨ ∀ c ∈ a.head?, space c = true := by
  induction h with
  | nil => exact .inr fun _ h => absurd h (by simp)
  | left hc => exact .inr fun d hd => by cases hd; exact hc
  | right _ _ ih => exact ih rfl
  | char => exact .inl hq

/-- Symbol by symbol the same, or both white space. -/
theorem of_forall₂ (h : List.Forall₂ (fun c d => c = d ∧ space c = false ∨ space c = true ∧ space d = true) a b) :
    Respaced space p a p b := by
  induction h generalizing p with
  | nil => exact .nil
  | cons hhead _ ih =>
    rcases hhead with ⟨rfl, hc⟩ | ⟨hc, hd⟩
    · exact .char hc ih
    · exact .left hc (.right hd ih)

/-- The same words behind the same text. -/
theorem append_left (h : ∀ p, Respaced space p a p b) : Respaced space p (u ++ a) p (u ++ b) := by
  induction u generalizing p with
  | nil => exact h p
  | cons c u ih =>
    cases hc : space c with
    | true => exact .left hc (.right hc ih)
    | false => exact .char hc ih

/-- One more symbol of white space, where some stands or the text ends. -/
theorem widen (hc : space c = true) (h : ∀ d ∈ a.head?, space d = true) : Respaced space p a p (c :: a) := by
  cases a with
  | nil => exact .right hc .nil
  | cons d a =>
    have hd := h d rfl
    refine .right hc (.left hd (.right hd (of_forall₂ ?_)))
    refine List.forall₂_same.mpr fun x _ => ?_
    cases hx : space x with
    | true => exact .inr ⟨rfl, rfl⟩
    | false => exact .inl ⟨rfl, rfl⟩

/-- Outside white space the texts are one. -/
theorem filter_eq (h : Respaced space p a q b) : a.filter (! space ·) = b.filter (! space ·) := by
  induction h with
  | nil => rfl
  | left hc _ ih => rw [List.filter_cons_of_neg (by simpa using hc), ih]
  | right hc _ ih => rw [List.filter_cons_of_neg (by simpa using hc), ih]
  | char hc _ ih => rw [List.filter_cons_of_pos (by simpa using hc), List.filter_cons_of_pos (by simpa using hc), ih]

end Respaced

end LocalSqlAgent
