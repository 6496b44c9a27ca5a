import Mathlib.Data.List.Perm.Basic
import Mathlib.Data.List.Infix

/-! # Logs kept in generations

A log of bounded size is kept as a list of files, newest first. An entry goes to the end of the newest
file, or starts a new one, and of the older files only so many are kept.

* **`push`**: append an entry, in a new file or not; `content`: the entries kept, in the order they came.
* **`content_push`**: what is kept is a suffix of what was kept, with the new entry.
* **`foldl_lastMatch`**: a loop that remembers the last match finds the last of the matches.
* **`filter_flatten_of_perm`**: when at most one file has matches, they come in the same order whatever
  order the files are read in. -/

namespace LocalSqlAgent

universe u

namespace Generations

variable {ρ : Type u}

/-- **Append an entry**: to the newest file, or to a new one, keeping `n` of the files before it. -/
def push (n : ℕ) (rotates : Bool) (r : ρ) : List (List ρ) → List (List ρ)
  | [] => [[r]]
  | newest :: older =>
    if rotates then [r] :: (newest :: older).take n else (newest ++ [r]) :: older

/-- The entries, in the order they came. -/
def content (files : List (List ρ)) : List ρ := files.reverse.flatten

@[simp] theorem content_nil : content ([] : List (List ρ)) = [] := rfl

theorem content_cons (f : List ρ) (files : List (List ρ)) : content (f :: files) = content files ++ f := by
  rw [content, content, List.reverse_cons, List.flatten_append, List.flatten_singleton]

/-- Dropping the oldest files leaves a suffix. -/
theorem content_take (n : ℕ) (files : List (List ρ)) : content (files.take n) <:+ content files := by
  refine ⟨content (files.drop n), ?_⟩
  rw [content, content, content, ← List.flatten_append, ← List.reverse_append, List.take_append_drop]

/-- **One append**: what is kept is a suffix of what was kept and the new entry. -/
theorem content_push (n : ℕ) (rotates : Bool) (r : ρ) (files : List (List ρ)) :
    content (push n rotates r files) <:+ content files ++ [r] := by
  cases files with
  | nil => exact List.suffix_rfl
  | cons newest older =>
    cases rotates with
    | true =>
      obtain ⟨dropped, hdropped⟩ := content_take n (newest :: older)
      refine ⟨dropped, ?_⟩
      rw [push, if_pos rfl, content_cons, ← List.append_assoc, hdropped]
    | false =>
      rw [push, if_neg Bool.false_ne_true, content_cons, content_cons, List.append_assoc]

/-- At most `n` files besides the newest. -/
theorem length_push_le {n : ℕ} {files : List (List ρ)} (h : files.length ≤ n + 1) (rotates : Bool) (r : ρ) :
    (push n rotates r files).length ≤ n + 1 := by
  cases files with
  | nil =>
    rw [push, List.length_singleton]
    omega
  | cons newest older =>
    cases rotates with
    | true =>
      rw [push, if_pos rfl, List.length_cons]
      have := List.length_take_le n (newest :: older)
      omega
    | false => exact h

/-- What every file has: the old ones as they were, the newest one with the entry, or the entry alone. -/
theorem forall_mem_push {P : List ρ → Prop} {n : ℕ} {rotates : Bool} {r : ρ} {files : List (List ρ)}
    (hold : ∀ f ∈ files, P f) (hnew : P [r])
    (hlonger : ∀ f, files.head? = some f → rotates = false → P (f ++ [r])) :
    ∀ f ∈ push n rotates r files, P f := by
  intro f hf
  cases files with
  | nil =>
    obtain rfl := List.mem_singleton.mp hf
    exact hnew
  | cons newest older =>
    cases rotates with
    | true =>
      rw [push, if_pos rfl] at hf
      obtain rfl | hf := List.mem_cons.mp hf
      · exact hnew
      · exact hold f (List.mem_of_mem_take hf)
    | false =>
      obtain rfl | hf := List.mem_cons.mp hf
      · exact hlonger newest rfl rfl
      · exact hold f (List.mem_cons_of_mem _ hf)

/-! ## The files that are kept beside the one an entry goes to -/

/-- The files kept as they are by an append. -/
def untouched (n : ℕ) (rotates : Bool) (files : List (List ρ)) : List (List ρ) :=
  if rotates then files.take n else files.tail

theorem push_eq (n : ℕ) (rotates : Bool) (r : ρ) {newest : List ρ} {older : List (List ρ)} :
    push n rotates r (newest :: older) =
      (if rotates then [r] else newest ++ [r]) :: untouched n rotates (newest :: older) := by
  cases rotates <;> rfl

/-- **At most one file has matches** of each of the predicates. -/
def OneFile (files : List (List ρ)) (p : ρ → Prop) : Prop :=
  files.Pairwise fun f g => (∀ x ∈ f, ¬ p x) ∨ (∀ x ∈ g, ¬ p x)

/-- An entry no untouched file matches leaves the matches in one file. -/
theorem OneFile.push {p : ρ → Prop} {n : ℕ} {rotates : Bool} {r : ρ} {files : List (List ρ)}
    (h : OneFile files p) (hr : p r → ∀ g ∈ untouched n rotates files, ∀ x ∈ g, ¬ p x) :
    OneFile (push n rotates r files) p := by
  cases files with
  | nil => exact List.pairwise_singleton _ _
  | cons newest older =>
    obtain ⟨hnewest, holder⟩ := List.pairwise_cons.mp h
    rw [push_eq]
    cases rotates with
    | true =>
      refine List.pairwise_cons.mpr ⟨fun g hg => ?_, h.sublist (List.take_sublist _ _)⟩
      by_cases hp : p r
      · exact .inr (hr hp g hg)
      · exact .inl fun x hx => by
          obtain rfl := List.mem_singleton.mp hx
          exact hp
    | false =>
      refine List.pairwise_cons.mpr ⟨fun g hg => ?_, holder⟩
      by_cases hp : p r
      · exact .inr (hr hp g hg)
      · obtain hnone | hnone := hnewest g hg
        · refine .inl fun x hx => ?_
          obtain hx | hx := List.mem_append.mp hx
          · exact hnone x hx
          · obtain rfl := List.mem_singleton.mp hx
            exact hp
        · exact .inr hnone

end Generations

/-! ## The last match -/

section LastMatch

variable {ρ : Type u} (p : ρ → Prop) [DecidablePred p]

/-- A loop that remembers the last match. -/
def lastMatch (records : List ρ) : Option ρ :=
  records.foldl (fun found r => if p r then some r else found) none

theorem foldl_lastMatch (records : List ρ) (found : Option ρ) :
    records.foldl (fun found r => if p r then some r else found) found =
      ((records.filter (p ·)).getLast?).or found := by
  induction records generalizing found with
  | nil => rfl
  | cons r rest ih =>
    rw [List.foldl_cons, ih]
    by_cases hp : p r
    · rw [if_pos hp, List.filter_cons_of_pos (by simpa using hp), List.getLast?_cons]
      cases (rest.filter (p ·)).getLast? <;> rfl
    · rw [if_neg hp, List.filter_cons_of_neg (by simpa using hp)]

theorem lastMatch_eq (records : List ρ) : lastMatch p records = (records.filter (p ·)).getLast? := by
  rw [lastMatch, foldl_lastMatch, Option.or_none]

variable {p}

/-- **Any order of the files gives the matches in the same order**, when at most one file has any. -/
theorem filter_flatten_of_perm {files files' : List (List ρ)} (hperm : files.Perm files')
    (hone : Generations.OneFile files p) :
    files.flatten.filter (p ·) = files'.flatten.filter (p ·) := by
  induction hperm with
  | nil => rfl
  | cons f hrest ih =>
    rw [List.flatten_cons, List.flatten_cons, List.filter_append, List.filter_append,
      ih (List.pairwise_cons.mp hone).2]
  | swap f g rest =>
    have hnil : ∀ {h : List ρ}, (∀ x ∈ h, ¬ p x) → h.filter (p ·) = [] := fun hnone =>
      List.filter_eq_nil_iff.mpr fun x hx => by simpa using hnone x hx
    simp only [List.flatten_cons, List.filter_append]
    obtain hnone | hnone := (List.pairwise_cons.mp hone).1 f List.mem_cons_self
    · rw [hnil hnone, List.nil_append, List.nil_append]
    · rw [hnil hnone, List.nil_append, List.nil_append]
  | trans h₁ h₂ ih₁ ih₂ =>
    have hone' := (List.Perm.pairwise_iff (fun h => h.symm) h₁).mp hone
    exact (ih₁ hone).trans (ih₂ hone')

end LastMatch

end LocalSqlAgent
