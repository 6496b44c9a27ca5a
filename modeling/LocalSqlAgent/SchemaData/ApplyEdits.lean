import LocalSqlAgent.Lib.RangeEdits
import Mathlib.Algebra.Order.Ring.Int

/-! # Edits of `schema.yaml`

`apply_edits`, on which every edit of the schema file rests: the edits are sorted by their ranges, refused
where two of them overlap, and made on the lines one by one from the back.

* **`applyEdits`**: the code, with its sort and its running maximum.
* **`checkOverlaps_eq_ok_iff`**: the loop over the sorted edits refuses none of them if and only if each
  starts behind all before it.
* **`applyEdits_simultaneous`**: it raises on overlap only, else makes the edits at once. -/

namespace LocalSqlAgent

/-- `Edit`: `(first, stop, replacement)` on lines. -/
abbrev Edit : Type := RangeEdit String

/-- `LayoutError`. -/
structure LayoutError where
  /-- What the error says. -/
  message : String
  deriving DecidableEq, Repr

/-- The sort key `(first, stop, index)`, compared. -/
def sortKeyLe (a b : Edit × ℕ) : Prop :=
  a.1.first < b.1.first ∨
    a.1.first = b.1.first ∧ (a.1.stop < b.1.stop ∨ a.1.stop = b.1.stop ∧ a.2 ≤ b.2)

instance : DecidableRel sortKeyLe := fun _ _ => inferInstanceAs (Decidable (_ ∨ _))

/-- `sorted(enumerate(edits), key=…)`. -/
def indexedEdits (edits : List Edit) : List (Edit × ℕ) := edits.zipIdx.insertionSort sortKeyLe

/-- The error of two edits that overlap. -/
def overlapError : LayoutError := ⟨"internal error: two edits to schema.yaml overlap"⟩

/-- The loop over the sorted edits, from `previous_stop`. -/
def checkOverlaps : ℤ → List (Edit × ℕ) → Except LayoutError Unit
  | _, [] => .ok ()
  | previousStop, (e, _) :: rest =>
    if (e.first : ℤ) < previousStop then .error overlapError
    else checkOverlaps (max previousStop e.stop) rest

/-- **`apply_edits`.** -/
def applyEdits (lines : List String) (edits : List Edit) : Except LayoutError (List String) := do
  let indexed := indexedEdits edits
  checkOverlaps (-1) indexed
  -- `reversed(indexed)`: the last one first
  return indexed.foldr (fun item out => splice item.1 out) lines

example : applyEdits ["a", "b", "c"]
    [⟨1, 2, ["B"]⟩, ⟨3, 3, ["d"]⟩, ⟨0, 0, ["z"]⟩, ⟨0, 0, ["y"]⟩] = .ok ["z", "y", "a", "B", "c", "d"] := by
  decide

variable {lines : List String} {edits edits' : List Edit} {indexed : List (Edit × ℕ)} {a b c : Edit × ℕ}

/-! ## The sort -/

theorem sortKeyLe_total (a b : Edit × ℕ) : sortKeyLe a b ∨ sortKeyLe b a := by
  unfold sortKeyLe
  omega

theorem sortKeyLe_trans (hab : sortKeyLe a b) (hbc : sortKeyLe b c) : sortKeyLe a c := by
  unfold sortKeyLe at *
  omega

instance : Std.Total sortKeyLe := ⟨sortKeyLe_total⟩

instance : IsTrans (Edit × ℕ) sortKeyLe := ⟨fun _ _ _ => sortKeyLe_trans⟩

/-- The sorted edits without their indices. -/
def sortedEdits (edits : List Edit) : List Edit := (indexedEdits edits).map Prod.fst

theorem sortedEdits_perm : (sortedEdits edits).Perm edits := by
  have hperm := (List.perm_insertionSort sortKeyLe edits.zipIdx).map Prod.fst
  rwa [List.zipIdx_map_fst] at hperm

/-- By the starts of the ranges, then by their ends. -/
theorem sortedEdits_pairwise : (sortedEdits edits).Pairwise fun e f =>
    e.first < f.first ∨ e.first = f.first ∧ e.stop ≤ f.stop := by
  refine List.pairwise_map.mpr ((List.pairwise_insertionSort sortKeyLe edits.zipIdx).imp fun hle => ?_)
  unfold sortKeyLe at hle
  omega

/-- **The insertions at one place keep the order they are given in.** -/
theorem filter_insertsAt_sortedEdits (i : ℕ) :
    ((sortedEdits edits).filter fun e => e.insertsAt i) = edits.filter fun e => e.insertsAt i := by
  have hindices : edits.zipIdx.Pairwise fun a b => a.2 < b.2 := by
    rw [← List.pairwise_map (f := Prod.snd), List.zipIdx_map_snd]
    exact List.pairwise_lt_range'
  -- at one place the key compares the indices only
  have hordered : (edits.zipIdx.filter fun item => decide (item.1.insertsAt i)).Pairwise sortKeyLe := by
    rw [List.pairwise_filter]
    refine hindices.imp fun hlt ha hb => ?_
    have ha := of_decide_eq_true ha
    have hb := of_decide_eq_true hb
    exact .inr ⟨ha.1.trans hb.1.symm, .inr ⟨ha.2.trans hb.2.symm, hlt.le⟩⟩
  have hkept := congrArg (List.map Prod.fst) (filter_insertionSort hordered)
  calc ((sortedEdits edits).filter fun e => e.insertsAt i)
      = ((indexedEdits edits).filter fun item => decide (item.1.insertsAt i)).map Prod.fst := List.filter_map
    _ = (edits.zipIdx.filter fun item => decide (item.1.insertsAt i)).map Prod.fst := hkept
    _ = (edits.zipIdx.map Prod.fst).filter fun e => e.insertsAt i :=
      (List.filter_map (f := Prod.fst) (p := fun e => decide (RangeEdit.insertsAt e i))).symm
    _ = edits.filter fun e => e.insertsAt i := by rw [List.zipIdx_map_fst]

/-! ## The overlap test -/

/-- **What the loop lets through**: edits that start where the previous ones stop, or behind. -/
theorem checkOverlaps_eq_ok_iff {previousStop : ℤ} : checkOverlaps previousStop indexed = .ok () ↔
    (∀ item ∈ indexed, previousStop ≤ item.1.first) ∧
      indexed.Pairwise fun a b => a.1.stop ≤ b.1.first := by
  induction indexed generalizing previousStop with
  | nil => simp [checkOverlaps]
  | cons item rest ih =>
    obtain ⟨e, k⟩ := item
    rw [checkOverlaps, List.forall_mem_cons, List.pairwise_cons]
    by_cases hbefore : (e.first : ℤ) < previousStop
    · rw [if_pos hbefore]
      exact ⟨fun h => (by cases h), fun h => absurd h.1.1 (not_le.mpr hbefore)⟩
    · rw [if_neg hbefore, ih]
      -- the running maximum is behind both
      simp only [max_le_iff, Nat.cast_le, forall_and]
      constructor
      · rintro ⟨⟨hprevious, hstop⟩, hrest⟩
        exact ⟨⟨not_lt.mp hbefore, hprevious⟩, hstop, hrest⟩
      · rintro ⟨⟨-, hprevious⟩, hstop, hrest⟩
        exact ⟨⟨hprevious, hstop⟩, hrest⟩

/-- The loop has one error. -/
theorem checkOverlaps_ok_or_error (previousStop : ℤ) (indexed : List (Edit × ℕ)) :
    checkOverlaps previousStop indexed = .ok () ∨ checkOverlaps previousStop indexed = .error overlapError := by
  induction indexed generalizing previousStop with
  | nil => exact .inl rfl
  | cons item rest ih =>
    rw [checkOverlaps]
    split
    · exact .inr rfl
    · exact ih _

/-- **In the order of the ranges, edits that do not overlap stop before the next one starts.** -/
theorem pairwise_stop_le_iff (hrange : ∀ e ∈ edits, e.first ≤ e.stop)
    (hsorted : edits.Pairwise fun e f => e.first < f.first ∨ e.first = f.first ∧ e.stop ≤ f.stop) :
    (edits.Pairwise fun e f => e.stop ≤ f.first) ↔ edits.Pairwise (¬ RangeEdit.Overlaps · ·) := by
  induction edits with
  | nil => exact ⟨fun _ => .nil, fun _ => .nil⟩
  | cons e edits ih =>
    obtain ⟨he, hrange⟩ := List.forall_mem_cons.mp hrange
    obtain ⟨hfirst, hsorted⟩ := List.pairwise_cons.mp hsorted
    rw [List.pairwise_cons, List.pairwise_cons, ih hrange hsorted]
    refine and_congr_left fun _ => forall₂_congr fun f hf => ?_
    rw [RangeEdit.overlaps_iff he (hrange f hf)]
    have hrangef := hrange f hf
    have hbefore := hfirst f hf
    omega

/-! ## The whole -/

/-- **The loop lets the sorted edits through if and only if no two overlap.** -/
theorem checkOverlaps_indexedEdits (hrange : ∀ e ∈ edits, e.first ≤ e.stop) :
    checkOverlaps (-1) (indexedEdits edits) = .ok () ↔ edits.Pairwise (¬ RangeEdit.Overlaps · ·) := by
  have hstart : ∀ item ∈ indexedEdits edits, (-1 : ℤ) ≤ item.1.first := fun item _ => by omega
  have hsorted : ∀ e ∈ sortedEdits edits, e.first ≤ e.stop := fun e he =>
    hrange e (sortedEdits_perm.mem_iff.mp he)
  have hedits : ((indexedEdits edits).Pairwise fun a b => a.1.stop ≤ b.1.first) ↔
      (sortedEdits edits).Pairwise fun e f => e.stop ≤ f.first := by
    rw [sortedEdits, List.pairwise_map]
  rw [checkOverlaps_eq_ok_iff, and_iff_right hstart, hedits]
  exact (pairwise_stop_le_iff hsorted sortedEdits_pairwise).trans
    (sortedEdits_perm.pairwise_iff fun hnot hover => hnot (RangeEdit.overlaps_comm hover))

/-- Edits that overlap are refused. -/
theorem applyEdits_of_overlap (hrange : ∀ e ∈ edits, e.first ≤ e.stop)
    (hoverlap : ¬ edits.Pairwise (¬ RangeEdit.Overlaps · ·)) :
    applyEdits lines edits = .error overlapError := by
  have hnot := mt (checkOverlaps_indexedEdits hrange).mp hoverlap
  have herror := (checkOverlaps_ok_or_error (-1) (indexedEdits edits)).resolve_left hnot
  simp only [applyEdits, herror]
  rfl

/-- **Edits that do not overlap are made at once.** -/
theorem applyEdits_of_disjoint (hrange : ∀ e ∈ edits, e.first ≤ e.stop ∧ e.stop ≤ lines.length)
    (hdisjoint : edits.Pairwise (¬ RangeEdit.Overlaps · ·)) :
    applyEdits lines edits = .ok (rewriteFrom edits 0 lines) := by
  have hok := (checkOverlaps_indexedEdits fun e he => (hrange e he).1).mpr hdisjoint
  have hordered : (sortedEdits edits).Pairwise fun e f => e.stop ≤ f.first :=
    List.pairwise_map.mpr (checkOverlaps_eq_ok_iff.mp hok).2
  have hmade : (indexedEdits edits).foldr (fun item out => splice item.1 out) lines =
      rewriteFrom edits 0 lines := by
    calc (indexedEdits edits).foldr (fun item out => splice item.1 out) lines
        = (sortedEdits edits).foldr splice lines := List.foldr_map.symm
      _ = rewriteFrom (sortedEdits edits) 0 lines :=
          foldr_splice hordered fun e he => hrange e (sortedEdits_perm.mem_iff.mp he)
      _ = rewriteFrom edits 0 lines :=
          (rewriteFrom_congr_perm sortedEdits_perm.symm hdisjoint fun i =>
            (filter_insertsAt_sortedEdits i).symm).symm
  simp only [applyEdits, hok, hmade]
  rfl

/-- **`apply_edits` is simultaneous replacement.** It raises exactly when two edits overlap; else the result
is that of all edits made at once, and any other order of them gives the same, as long as the insertions at
each place keep theirs. -/
theorem applyEdits_simultaneous (lines : List String) (edits : List Edit)
    (hrange : ∀ e ∈ edits, e.first ≤ e.stop ∧ e.stop ≤ lines.length) :
    (applyEdits lines edits = .error overlapError ↔ ¬ edits.Pairwise (¬ RangeEdit.Overlaps · ·)) ∧
      (edits.Pairwise (¬ RangeEdit.Overlaps · ·) → applyEdits lines edits = .ok (rewriteFrom edits 0 lines)) ∧
      ∀ edits' : List Edit, edits'.Perm edits →
        (∀ i, (edits'.filter fun e => e.insertsAt i) = edits.filter fun e => e.insertsAt i) →
        applyEdits lines edits' = applyEdits lines edits := by
  have hends : ∀ e ∈ edits, e.first ≤ e.stop := fun e he => (hrange e he).1
  refine ⟨⟨fun herror hdisjoint => ?_, applyEdits_of_overlap hends⟩, applyEdits_of_disjoint hrange, ?_⟩
  · rw [applyEdits_of_disjoint hrange hdisjoint] at herror
    cases herror
  · intro edits' hperm hinserts
    have hrange' : ∀ e ∈ edits', e.first ≤ e.stop ∧ e.stop ≤ lines.length := fun e he =>
      hrange e (hperm.mem_iff.mp he)
    by_cases hdisjoint : edits.Pairwise (¬ RangeEdit.Overlaps · ·)
    · have hdisjoint' := pairwise_not_overlaps_perm hperm.symm hdisjoint
      rw [applyEdits_of_disjoint hrange hdisjoint, applyEdits_of_disjoint hrange' hdisjoint',
        rewriteFrom_congr_perm hperm hdisjoint' hinserts]
    · have hoverlap' := fun h => hdisjoint (pairwise_not_overlaps_perm hperm h)
      rw [applyEdits_of_overlap hends hdisjoint,
        applyEdits_of_overlap (fun e he => (hrange' e he).1) hoverlap']

/-- Two insertions before a line that is replaced, the replacement given first. -/
theorem insertThenReplace_simultaneous :
    applyEdits ["a", "b"] [⟨1, 2, ["B"]⟩, ⟨1, 1, ["z"]⟩, ⟨1, 1, ["y"]⟩] = .ok ["a", "z", "y", "B"] := by
  have hall := applyEdits_simultaneous ["a", "b"] [⟨1, 2, ["B"]⟩, ⟨1, 1, ["z"]⟩, ⟨1, 1, ["y"]⟩] (by decide)
  exact (hall.2.1 (by decide)).trans (by decide)

end LocalSqlAgent
