import Mathlib.Data.List.Sort

/-! # Edits of ranges

An edit puts items in the place of a range of a list; where the range is empty it inserts them. Edits that do
not overlap can be made at once: each item of the list is kept or covered by one edit, and what an edit
writes stands where its range starts (`rewriteFrom`).

* **`Overlaps`**: two ranges share an item, or one is an insertion strictly inside the other.
* **`rewriteFrom_congr_perm`**: edits made at once do not depend on their order, but for the insertions at one
  place.
* **`foldr_splice`**: disjoint edits in the order of their ranges, made one by one from the back, are made at
  once.
* **`rewriteFrom_weave`**: what is between disjoint edits stays.
* **`filter_insertionSort`**: a sort leaves equal items in their order. -/

namespace LocalSqlAgent

universe u

/-! ## Edits -/

/-- **An edit**: the items from `first` up to `stop` become the replacement. -/
structure RangeEdit (α : Type u) where
  /-- Where the range starts. -/
  first : ℕ
  /-- The first item behind the range. -/
  stop : ℕ
  /-- The items put there. -/
  replacement : List α

namespace RangeEdit

variable {α : Type u}

/-- The edit replaces the item at a place. -/
def covers (e : RangeEdit α) (i : ℕ) : Prop := e.first ≤ i ∧ i < e.stop

/-- The edit inserts at a place. -/
def insertsAt (e : RangeEdit α) (i : ℕ) : Prop := e.first = i ∧ e.stop = i

/-- The edit replaces a range that starts at a place. -/
def startsAt (e : RangeEdit α) (i : ℕ) : Prop := e.first = i ∧ i < e.stop

instance (e : RangeEdit α) (i : ℕ) : Decidable (e.covers i) := inferInstanceAs (Decidable (_ ∧ _))

instance (e : RangeEdit α) (i : ℕ) : Decidable (e.insertsAt i) := inferInstanceAs (Decidable (_ ∧ _))

instance (e : RangeEdit α) (i : ℕ) : Decidable (e.startsAt i) := inferInstanceAs (Decidable (_ ∧ _))

/-- An insertion strictly inside a replaced range. -/
def StrictlyInside (e f : RangeEdit α) : Prop := e.first = e.stop ∧ f.first < e.first ∧ e.first < f.stop

/-- **Two edits overlap**: they replace one item both, or one inserts strictly inside what the other
replaces. -/
def Overlaps (e f : RangeEdit α) : Prop :=
  (∃ i, e.covers i ∧ f.covers i) ∨ StrictlyInside e f ∨ StrictlyInside f e

/-- An item of both ranges, by their ends. -/
theorem exists_covers_iff {e f : RangeEdit α} : (∃ i, e.covers i ∧ f.covers i) ↔
    e.first < e.stop ∧ e.first < f.stop ∧ f.first < e.stop ∧ f.first < f.stop := by
  constructor
  · rintro ⟨i, ⟨hei, hie⟩, hfi, hif⟩
    omega
  · rintro ⟨hee, hef, hfe, hff⟩
    -- the later start is an item of both
    exact ⟨max e.first f.first, ⟨le_max_left _ _, max_lt hee hfe⟩, le_max_right _ _, max_lt hef hff⟩

instance (e f : RangeEdit α) : Decidable (Overlaps e f) :=
  have : Decidable (∃ i, e.covers i ∧ f.covers i) := decidable_of_iff' _ exists_covers_iff
  have (e f : RangeEdit α) : Decidable (StrictlyInside e f) := inferInstanceAs (Decidable (_ ∧ _ ∧ _))
  inferInstanceAs (Decidable (_ ∨ _ ∨ _))

/-- Overlap, by the ends of the ranges. -/
theorem overlaps_iff {e f : RangeEdit α} (he : e.first ≤ e.stop) (hf : f.first ≤ f.stop) :
    Overlaps e f ↔ e.first < f.stop ∧ f.first < e.stop := by
  rw [Overlaps, exists_covers_iff, StrictlyInside, StrictlyInside]
  omega

theorem overlaps_comm {e f : RangeEdit α} (h : Overlaps e f) : Overlaps f e := by
  rcases h with ⟨i, hei, hfi⟩ | h | h
  · exact .inl ⟨i, hfi, hei⟩
  · exact .inr (.inr h)
  · exact .inr (.inl h)

/-- Two replacements that start at one place overlap. -/
theorem overlaps_of_startsAt {e f : RangeEdit α} {i : ℕ} (he : e.startsAt i) (hf : f.startsAt i) :
    Overlaps e f :=
  .inl ⟨i, ⟨he.1.le, he.2⟩, hf.1.le, hf.2⟩

end RangeEdit

open RangeEdit

variable {α : Type u} {edits edits' : List (RangeEdit α)} {e : RangeEdit α} {i : ℕ} {xs ys : List α}

/-! ## All at once -/

/-- What the edits write at a place: the insertions there, then the replacement that starts there. -/
def writtenAt (edits : List (RangeEdit α)) (i : ℕ) : List α :=
  (edits.filter fun e => e.insertsAt i).flatMap (·.replacement) ++
    (edits.filter fun e => e.startsAt i).flatMap (·.replacement)

/-- **The edits made at once** on items whose first stands at `i`: before each item what is written at its
place, and the item itself unless an edit covers it. -/
def rewriteFrom (edits : List (RangeEdit α)) : ℕ → List α → List α
  | i, [] => writtenAt edits i
  | i, x :: xs =>
    writtenAt edits i ++ (if ∃ e ∈ edits, e.covers i then [] else [x]) ++ rewriteFrom edits (i + 1) xs

/-- Edits that write and cover the same from a place on rewrite what stands there alike. -/
theorem rewriteFrom_congr (hwritten : ∀ j, i ≤ j → writtenAt edits j = writtenAt edits' j)
    (hcovered : ∀ j, i ≤ j → ((∃ e ∈ edits, e.covers j) ↔ ∃ e ∈ edits', e.covers j)) :
    rewriteFrom edits i xs = rewriteFrom edits' i xs := by
  induction xs generalizing i with
  | nil => exact hwritten i le_rfl
  | cons x xs ih =>
    have htail : rewriteFrom edits (i + 1) xs = rewriteFrom edits' (i + 1) xs :=
      ih (fun j hj => hwritten j (by omega)) fun j hj => hcovered j (by omega)
    simp only [rewriteFrom, hwritten i le_rfl, hcovered i le_rfl, htail]

/-- At most one of the disjoint edits replaces a range that starts at a place. -/
theorem pairwise_filter_startsAt (hdisjoint : edits.Pairwise (¬ Overlaps · ·)) :
    (edits.filter fun e => e.startsAt i).Pairwise fun _ _ => False := by
  rw [List.pairwise_filter]
  refine hdisjoint.imp fun hnot he hf => hnot ?_
  exact overlaps_of_startsAt (of_decide_eq_true he) (of_decide_eq_true hf)

theorem pairwise_not_overlaps_perm (hperm : edits.Perm edits') (h : edits.Pairwise (¬ Overlaps · ·)) :
    edits'.Pairwise (¬ Overlaps · ·) :=
  hperm.pairwise h fun hnot hover => hnot (overlaps_comm hover)

/-- **The order of disjoint edits does not matter**, but for the insertions at one place. -/
theorem rewriteFrom_congr_perm (hperm : edits.Perm edits') (hdisjoint : edits.Pairwise (¬ Overlaps · ·))
    (hinserts : ∀ j, (edits.filter fun e => e.insertsAt j) = edits'.filter fun e => e.insertsAt j) :
    rewriteFrom edits i xs = rewriteFrom edits' i xs := by
  refine rewriteFrom_congr (fun j _ => ?_) fun j _ => by simp only [hperm.mem_iff]
  have hstarts : (edits.filter fun e => e.startsAt j) = edits'.filter fun e => e.startsAt j :=
    List.Perm.eq_of_pairwise (fun _ _ _ _ h => h.elim) (pairwise_filter_startsAt hdisjoint)
      (pairwise_filter_startsAt (pairwise_not_overlaps_perm hperm hdisjoint)) (hperm.filter _)
  rw [writtenAt, writtenAt, hinserts, hstarts]

/-! ## One by one -/

/-- One edit made: slices past the end are cut there. -/
def splice (e : RangeEdit α) (xs : List α) : List α :=
  xs.take e.first ++ e.replacement ++ xs.drop (max e.first e.stop)

/-- Nothing is written where no edit starts. -/
theorem writtenAt_eq_nil (h : ∀ e ∈ edits, i ≠ e.first) : writtenAt edits i = [] := by
  have hinserts : (edits.filter fun e => e.insertsAt i) = [] :=
    List.filter_eq_nil_iff.mpr fun e he hat => h e he (of_decide_eq_true hat).1.symm
  have hstarts : (edits.filter fun e => e.startsAt i) = [] :=
    List.filter_eq_nil_iff.mpr fun e he hat => h e he (of_decide_eq_true hat).1.symm
  rw [writtenAt, hinserts, hstarts, List.flatMap_nil, List.append_nil]

/-- An insertion is written before what is written at its place. -/
theorem writtenAt_insert (h : e.insertsAt i) :
    writtenAt (e :: edits) i = e.replacement ++ writtenAt edits i := by
  have hstarts : ¬ e.startsAt i := fun hstarts => hstarts.2.ne h.2.symm
  rw [writtenAt, List.filter_cons_of_pos (by simpa using h), List.filter_cons_of_neg (by simpa using hstarts),
    List.flatMap_cons, List.append_assoc]
  rfl

/-- The only replacement that starts at a place. -/
theorem writtenAt_start (h : e.startsAt i) (hother : ∀ f ∈ edits, i ≠ f.first) :
    writtenAt (e :: edits) i = e.replacement := by
  have hinserts : ¬ e.insertsAt i := fun hinserts => h.2.ne hinserts.2.symm
  obtain ⟨hnone, hnothing⟩ := List.append_eq_nil_iff.mp (writtenAt_eq_nil hother)
  rw [writtenAt, List.filter_cons_of_neg (by simpa using hinserts),
    List.filter_cons_of_pos (by simpa using h), List.flatMap_cons, hnone, hnothing, List.append_nil]
  rfl

/-- Items before every edit are kept. -/
theorem rewriteFrom_before (h : ∀ e ∈ edits, i + xs.length ≤ e.first) :
    rewriteFrom edits i (xs ++ ys) = xs ++ rewriteFrom edits (i + xs.length) ys := by
  induction xs generalizing i with
  | nil => rfl
  | cons x xs ih =>
    have hplace : i + (x :: xs).length = i + 1 + xs.length := by
      rw [List.length_cons]
      omega
    rw [hplace] at h ⊢
    have hnothing : writtenAt edits i = [] := writtenAt_eq_nil fun e he => by
      have := h e he
      omega
    have huncovered : ¬ ∃ e ∈ edits, e.covers i := by
      rintro ⟨e, he, hcovers, -⟩
      have := h e he
      omega
    rw [List.cons_append, rewriteFrom, hnothing, if_neg huncovered, ih h]
    rfl

/-- Behind an edit it is as if it were absent. -/
theorem rewriteFrom_behind (hstop : e.stop ≤ i) (hfirst : e.first < i) :
    rewriteFrom (e :: edits) i xs = rewriteFrom edits i xs := by
  refine rewriteFrom_congr (fun j hj => ?_) fun j hj => ?_
  · have hinserts : decide (e.insertsAt j) = false := decide_eq_false fun h => by have := h.1; omega
    have hstarts : decide (e.startsAt j) = false := decide_eq_false fun h => by have := h.1; omega
    rw [writtenAt, writtenAt, List.filter_cons, List.filter_cons, hinserts, hstarts]
    rfl
  · have hcovers : ¬ e.covers j := fun h => by have := h.2; omega
    simp [hcovers]

/-- Behind its start, what an edit covers is left out. -/
theorem rewriteFrom_covered (hfirst : e.first < i) (hstop : e.stop = i + xs.length)
    (hlater : ∀ f ∈ edits, e.stop ≤ f.first) :
    rewriteFrom (e :: edits) i (xs ++ ys) = rewriteFrom edits (i + xs.length) ys := by
  induction xs generalizing i with
  | nil => exact rewriteFrom_behind hstop.le hfirst
  | cons x xs ih =>
    have hplace : i + (x :: xs).length = i + 1 + xs.length := by
      rw [List.length_cons]
      omega
    rw [hplace] at hstop ⊢
    have hnothing : writtenAt (e :: edits) i = [] := by
      refine writtenAt_eq_nil fun f hf => ?_
      rcases List.mem_cons.mp hf with rfl | hf
      · exact hfirst.ne'
      · have := hlater f hf
        omega
    have hcovered : ∃ f ∈ e :: edits, f.covers i := ⟨e, List.mem_cons_self, hfirst.le, by omega⟩
    rw [List.cons_append, rewriteFrom, hnothing, if_pos hcovered, ih (by omega) hstop]
    rfl

/-- An edit before all others, made at its place. -/
theorem rewriteFrom_edit (hfirst : e.first = i) (hstop : e.stop = i + xs.length)
    (hlater : ∀ f ∈ edits, e.stop ≤ f.first) :
    rewriteFrom (e :: edits) i (xs ++ ys) = e.replacement ++ rewriteFrom edits (i + xs.length) ys := by
  cases xs with
  | nil =>
    -- an insertion: what stands at its place is behind it
    have hwritten : writtenAt (e :: edits) i = e.replacement ++ writtenAt edits i :=
      writtenAt_insert ⟨hfirst, hstop⟩
    have hcovers : ¬ e.covers i := fun h => by
      have := h.2
      rw [hstop, List.length_nil] at this
      omega
    cases ys with
    | nil => exact hwritten
    | cons y ys =>
      have hrest : rewriteFrom (e :: edits) (i + 1) ys = rewriteFrom edits (i + 1) ys :=
        rewriteFrom_behind (by rw [hstop, List.length_nil]; omega) (by omega)
      simp only [List.nil_append, List.length_nil, Nat.add_zero, rewriteFrom, hwritten, hrest,
        List.append_assoc, List.mem_cons, exists_eq_or_imp, hcovers, false_or]
  | cons x xs =>
    have hplace : i + (x :: xs).length = i + 1 + xs.length := by
      rw [List.length_cons]
      omega
    rw [hplace] at hstop ⊢
    have hother : ∀ f ∈ edits, i ≠ f.first := fun f hf => by
      have := hlater f hf
      omega
    have hstarts : e.startsAt i := ⟨hfirst, by omega⟩
    have hcovered : ∃ f ∈ e :: edits, f.covers i := ⟨e, List.mem_cons_self, hfirst.le, hstarts.2⟩
    rw [List.cons_append, rewriteFrom, writtenAt_start hstarts hother, if_pos hcovered, List.append_nil,
      rewriteFrom_covered (by omega) hstop hlater]

/-- **Disjoint edits in the order of their ranges, made one by one from the back, are made at once.** -/
theorem foldr_splice (hordered : edits.Pairwise fun e f => e.stop ≤ f.first)
    (hrange : ∀ e ∈ edits, e.first ≤ e.stop ∧ e.stop ≤ xs.length) :
    edits.foldr splice xs = rewriteFrom edits 0 xs := by
  induction edits with
  | nil =>
    have hkept : rewriteFrom [] 0 (xs ++ []) = xs ++ rewriteFrom [] (0 + xs.length) [] :=
      rewriteFrom_before fun e he => absurd he List.not_mem_nil
    rw [List.append_nil] at hkept
    rw [hkept]
    exact (List.append_nil xs).symm
  | cons e edits ih =>
    obtain ⟨hlater, hordered⟩ := List.pairwise_cons.mp hordered
    obtain ⟨⟨hfirst, hstop⟩, hrange⟩ := List.forall_mem_cons.mp hrange
    -- what stands before the range, in it and behind it
    obtain ⟨before, inside, behind, rfl, hbefore, hinside⟩ : ∃ before inside behind,
        xs = before ++ (inside ++ behind) ∧ before.length = e.first ∧
          before.length + inside.length = e.stop := by
      refine ⟨xs.take e.first, (xs.drop e.first).take (e.stop - e.first), xs.drop e.stop, ?_, ?_, ?_⟩
      · have hdrop : xs.drop e.stop = (xs.drop e.first).drop (e.stop - e.first) := by
          rw [List.drop_drop, Nat.add_sub_cancel' hfirst]
        rw [hdrop, List.take_append_drop, List.take_append_drop]
      · rw [List.length_take]
        omega
      · rw [List.length_take, List.length_take, List.length_drop]
        omega
    have hlast : rewriteFrom edits 0 (before ++ (inside ++ behind)) =
        before ++ (inside ++ rewriteFrom edits e.stop behind) := by
      rw [← List.append_assoc, rewriteFrom_before, List.append_assoc, List.length_append, Nat.zero_add,
        hinside]
      intro f hf
      rw [List.length_append, Nat.zero_add, hinside]
      exact hlater f hf
    have hboth : rewriteFrom (e :: edits) 0 (before ++ (inside ++ behind)) =
        before ++ (e.replacement ++ rewriteFrom edits e.stop behind) := by
      rw [rewriteFrom_before, rewriteFrom_edit, Nat.zero_add, hinside]
      · omega
      · omega
      · exact hlater
      · refine List.forall_mem_cons.mpr ⟨by omega, fun f hf => ?_⟩
        have := hlater f hf
        omega
    rw [List.foldr_cons, ih hordered hrange, hlast, hboth, splice, max_eq_right hfirst, ← hinside,
      ← hbefore, List.take_left, ← List.append_assoc before inside, ← List.length_append, List.drop_left,
      List.append_assoc]

/-! ## Between the edits -/

/-- The items an edit replaces. -/
def RangeEdit.range (e : RangeEdit α) (xs : List α) : List α := (xs.take e.stop).drop e.first

/-- Some items, each behind others, and the rest. -/
def weave (parts : List (List α × List α)) (rest : List α) : List α :=
  (parts.flatMap fun p => p.1 ++ p.2) ++ rest

theorem weave_cons (p : List α × List α) (parts : List (List α × List α)) (rest : List α) :
    weave (p :: parts) rest = p.1 ++ (p.2 ++ weave parts rest) := by
  simp only [weave, List.flatMap_cons, List.append_assoc]

/-- **What is between disjoint edits stays**: before and after them the items are the same ones woven with what
the edits replace, and with what they put there. -/
theorem rewriteFrom_weave {before : List α} (hordered : edits.Pairwise fun e f => e.stop ≤ f.first)
    (hrange : ∀ e ∈ edits, before.length ≤ e.first ∧ e.first ≤ e.stop ∧ e.stop ≤ before.length + xs.length) :
    ∃ (parts : List (List α × RangeEdit α)) (rest : List α), parts.map (·.2) = edits ∧
      xs = weave (parts.map fun p => (p.1, p.2.range (before ++ xs))) rest ∧
      rewriteFrom edits before.length xs = weave (parts.map fun p => (p.1, p.2.replacement)) rest := by
  induction edits generalizing before xs with
  | nil =>
    have hkept : rewriteFrom [] before.length (xs ++ []) = xs ++ rewriteFrom [] (before.length + xs.length) [] :=
      rewriteFrom_before fun e he => absurd he List.not_mem_nil
    rw [List.append_nil] at hkept
    exact ⟨[], xs, rfl, rfl, hkept.trans (List.append_nil xs)⟩
  | cons e edits ih =>
    obtain ⟨hlater, hordered⟩ := List.pairwise_cons.mp hordered
    obtain ⟨⟨hbefore, hfirst, hstop⟩, hrange⟩ := List.forall_mem_cons.mp hrange
    -- what stands before the range, in it and behind it
    obtain ⟨gap, inside, behind, rfl, hgap, hinside⟩ : ∃ gap inside behind, xs = gap ++ (inside ++ behind) ∧
        before.length + gap.length = e.first ∧ e.first + inside.length = e.stop := by
      refine ⟨xs.take (e.first - before.length), (xs.drop (e.first - before.length)).take (e.stop - e.first),
        (xs.drop (e.first - before.length)).drop (e.stop - e.first), ?_, ?_, ?_⟩
      · rw [List.take_append_drop, List.take_append_drop]
      · rw [List.length_take]
        omega
      · rw [List.length_take, List.length_drop]
        omega
    have hlength : (before ++ (gap ++ inside)).length = e.stop := by
      rw [List.length_append, List.length_append]
      omega
    obtain ⟨parts, rest, hparts, hbehind, hwritten⟩ := @ih behind (before ++ (gap ++ inside)) hordered (by
      intro f hf
      have hafter := hlater f hf
      obtain ⟨-, hle, hend⟩ := hrange f hf
      rw [List.length_append, List.length_append] at hend
      refine ⟨hlength ▸ hafter, hle, ?_⟩
      rw [hlength]
      omega)
    have hwhole : before ++ (gap ++ inside) ++ behind = before ++ (gap ++ (inside ++ behind)) := by
      simp only [List.append_assoc]
    have hreplaced : e.range (before ++ (gap ++ (inside ++ behind))) = inside := by
      rw [RangeEdit.range, ← hwhole, ← hlength, List.take_left, ← List.append_assoc,
        List.drop_left' (by rw [List.length_append]; exact hgap)]
    refine ⟨(gap, e) :: parts, rest, congrArg _ hparts, ?_, ?_⟩
    · rw [List.map_cons, weave_cons, hreplaced, ← hwhole, ← hbehind]
    · rw [List.map_cons, weave_cons, ← hwritten, rewriteFrom_before, rewriteFrom_edit hgap.symm, hgap, hinside, hlength]
      · rw [hgap, hinside]
      · exact hlater
      · refine List.forall_mem_cons.mpr ⟨hgap.le, fun f hf => ?_⟩
        have := hlater f hf
        omega

/-! ## Sorting -/

/-- **A sort leaves in order what is in order**: the items of a kind, where they are listed in order. -/
theorem filter_insertionSort {β : Type u} {r : β → β → Prop} [DecidableRel r] {p : β → Bool} {l : List β}
    (h : (l.filter p).Pairwise r) : (l.insertionSort r).filter p = l.filter p := by
  have hsorted : (l.filter p).Sublist (l.insertionSort r) :=
    List.sublist_insertionSort h List.filter_sublist
  have hkind : (l.filter p).Sublist ((l.insertionSort r).filter p) := by
    have hfilter := hsorted.filter p
    simpa only [List.filter_filter, Bool.and_self] using hfilter
  exact (hkind.eq_of_length ((List.perm_insertionSort r l).filter p).length_eq.symm).symm

end LocalSqlAgent
