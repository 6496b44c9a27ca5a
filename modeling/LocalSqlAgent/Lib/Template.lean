import Mathlib.Data.List.Count

/-! # Format strings

A format string is a list of pieces: fixed text, and slots that `str.format` fills by name.

* **`format_congr`**: only the slots of a template matter to what it renders to.
* **`occurs_format`**: what fills a slot occurs in the text.
* **`format_ne`**: two fillings that differ in one slot, which the template has once, give different
  texts. -/

namespace LocalSqlAgent

universe u

/-- The text occurs in the other. -/
def Occurs (s t : String) : Prop := ∃ a b, t = a ++ s ++ b

theorem Occurs.refl (s : String) : Occurs s s := ⟨"", "", by rw [String.empty_append, String.append_empty]⟩

theorem occurs_empty (t : String) : Occurs "" t := ⟨t, "", by rw [String.append_empty, String.append_empty]⟩

theorem Occurs.append_left {s t : String} (h : Occurs s t) (u : String) : Occurs s (u ++ t) := by
  obtain ⟨a, b, rfl⟩ := h
  exact ⟨u ++ a, b, by simp only [String.append_assoc]⟩

theorem Occurs.append_right {s t : String} (h : Occurs s t) (u : String) : Occurs s (t ++ u) := by
  obtain ⟨a, b, rfl⟩ := h
  exact ⟨a, b ++ u, by simp only [String.append_assoc]⟩

theorem Occurs.trans {s t u : String} (h₁ : Occurs s t) (h₂ : Occurs t u) : Occurs s u := by
  obtain ⟨a, b, rfl⟩ := h₂
  exact (h₁.append_left a).append_right b

/-- A piece of a format string. -/
inductive Piece (ι : Type u) where
  /-- Fixed text. -/
  | text (s : String)
  /-- A named slot. -/
  | slot (i : ι)

/-- **A format string.** -/
abbrev Template (ι : Type u) := List (Piece ι)

namespace Template

variable {ι : Type u}

/-- `str.format`. -/
def format (fill : ι → String) : Template ι → String
  | [] => ""
  | .text s :: rest => s ++ format fill rest
  | .slot i :: rest => fill i ++ format fill rest

/-- The slots, in order. -/
def slots : Template ι → List ι
  | [] => []
  | .text _ :: rest => slots rest
  | .slot i :: rest => i :: slots rest

variable {fill fill' : ι → String}

theorem format_append (t t' : Template ι) : format fill (t ++ t') = format fill t ++ format fill t' := by
  induction t with
  | nil => exact String.empty_append.symm
  | cons piece rest ih =>
    cases piece with
    | text s => rw [List.cons_append, format, format, ih, String.append_assoc]
    | slot i => rw [List.cons_append, format, format, ih, String.append_assoc]

/-- A template that begins with text renders to some. -/
theorem format_text_ne_empty {s : String} (hs : s ≠ "") (t : Template ι) : format fill (.text s :: t) ≠ "" := by
  intro h
  exact hs (String.append_eq_empty_iff.mp h).1

theorem slots_append (t t' : Template ι) : slots (t ++ t') = slots t ++ slots t' := by
  induction t with
  | nil => rfl
  | cons piece rest ih =>
    cases piece with
    | text s => exact ih
    | slot i => exact congrArg (i :: ·) ih

/-- **Only the slots of the template matter.** -/
theorem format_congr {t : Template ι} (h : ∀ i ∈ slots t, fill i = fill' i) :
    format fill t = format fill' t := by
  induction t with
  | nil => rfl
  | cons piece rest ih =>
    cases piece with
    | text s => rw [format, format, ih h]
    | slot i =>
      rw [format, format, h i List.mem_cons_self, ih fun j hj => h j (List.mem_cons_of_mem _ hj)]

/-- **What fills a slot occurs in the text.** -/
theorem occurs_format {t : Template ι} {i : ι} (h : i ∈ slots t) : Occurs (fill i) (format fill t) := by
  induction t with
  | nil => exact absurd h List.not_mem_nil
  | cons piece rest ih =>
    cases piece with
    | text s => exact (ih h).append_left s
    | slot j =>
      obtain rfl | h := List.mem_cons.mp h
      · exact (Occurs.refl _).append_right _
      · exact (ih h).append_left _

/-- **One slot that differs** makes the texts differ, when the template has it once. -/
theorem format_ne [DecidableEq ι] {t : Template ι} {i : ι} (honce : (slots t).count i = 1)
    (hne : fill i ≠ fill' i) (hsame : ∀ j, j ≠ i → fill j = fill' j) : format fill t ≠ format fill' t := by
  induction t with
  | nil => exact absurd honce (by rw [slots, List.count_nil]; decide)
  | cons piece rest ih =>
    cases piece with
    | text s => exact fun heq => ih honce (String.append_right_inj s |>.mp heq)
    | slot j =>
      rw [slots, List.count_cons] at honce
      by_cases hj : j = i
      · subst hj
        -- The slot is here, so it is not in the rest, which both render alike.
        rw [if_pos (beq_self_eq_true j)] at honce
        have hnone : j ∉ slots rest := List.count_eq_zero.mp (by omega)
        have hrest : format fill rest = format fill' rest :=
          format_congr fun k hk => hsame k fun heq => hnone (heq ▸ hk)
        intro heq
        rw [format, format, hrest] at heq
        exact hne (String.append_left_inj _ |>.mp heq)
      · rw [if_neg (by simpa using hj)] at honce
        intro heq
        rw [format, format, hsame j hj] at heq
        exact ih honce (String.append_right_inj _ |>.mp heq)

end Template

end LocalSqlAgent
