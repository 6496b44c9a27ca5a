import Mathlib.Data.List.Basic

/-! # Rounds that grow a set to its closure

A set grows by rounds: every pending element linked to one of the set joins it, until a round adds nothing. What
comes of it does not depend on the rounds: it is the least set with the elements at the start that has every
pending element linked to one of its own.

* **`Supported`**: that set.
* **`rescue`**: the rounds.
* **`mem_rescue_iff`**: the rounds reach it. -/

namespace LocalSqlAgent

universe u

variable {α : Type u}

/-- **The least set** that has the elements of `base`, and every element of `within` linked to one it has. -/
inductive Supported (R : α → α → Prop) (within base : α → Prop) : α → Prop
  | base {x : α} (h : base x) : Supported R within base x
  | linked {x y : α} (hx : within x) (hy : Supported R within base y) (h : R x y) : Supported R within base x

namespace Supported

variable {R : α → α → Prop} {within within' base base' : α → Prop} {x : α}

/-- **Least**: it is inside every set closed the same way. -/
theorem least {C : α → Prop} (h : Supported R within base x) (hbase : ∀ x, base x → C x)
    (hclosed : ∀ x y, within x → C y → R x y → C x) : C x := by
  induction h with
  | base h => exact hbase _ h
  | linked hx _ h ih => exact hclosed _ _ hx ih h

/-- A larger start supports more. -/
theorem mono (h : Supported R within base x) (hwithin : ∀ x, within x → within' x)
    (hbase : ∀ x, base x → Supported R within' base' x) : Supported R within' base' x :=
  h.least hbase fun _ _ hx hy hR => .linked (hwithin _ hx) hy hR

/-- What is supported belongs to the start or to the elements that can be. -/
theorem mem (h : Supported R within base x) : base x ∨ within x := by
  cases h with
  | base h => exact .inl h
  | linked hx _ _ => exact .inr hx

end Supported

section Rounds

variable [DecidableEq α] (linked : α → List α → Bool)

/-- **The rounds**: the elements that are in, and those still pending. -/
def rescue : ℕ → List α → List α → List α × List α
  | 0, kept, pending => (kept, pending)
  | n + 1, kept, pending =>
    let rescued := pending.filter fun x => linked x kept
    if rescued = [] then (kept, pending)
    else rescue n (kept ++ rescued) (pending.filter fun x => decide (x ∉ kept ++ rescued))

variable {linked} {R : α → α → Prop} {kept pending : List α} {n : ℕ} {x : α}

/-- Nothing that is in is dropped. -/
theorem subset_rescue : kept ⊆ (rescue linked n kept pending).1 := by
  induction n generalizing kept pending with
  | zero => exact List.Subset.refl _
  | succ n ih =>
    rw [rescue]
    split
    · exact List.Subset.refl _
    · exact List.Subset.trans (List.subset_append_left _ _) ih

/-- What comes in is linked, directly or through others, to what was in. -/
theorem supported_of_mem_rescue (hlinked : ∀ x K, linked x K = true → ∃ y ∈ K, R x y)
    (h : x ∈ (rescue linked n kept pending).1) : Supported R (· ∈ pending) (· ∈ kept) x := by
  induction n generalizing kept pending with
  | zero => exact .base h
  | succ n ih =>
    rw [rescue] at h
    split at h
    · exact .base h
    · refine (ih h).mono (fun y hy => (List.mem_filter.mp hy).1) fun y hy => ?_
      obtain hy | hy := List.mem_append.mp hy
      · exact .base hy
      · obtain ⟨hpending, hlink⟩ := List.mem_filter.mp hy
        obtain ⟨z, hz, hR⟩ := hlinked y kept hlink
        exact .linked hpending (.base hz) hR

/-- **The rounds end closed**: no pending element is linked to what is in. -/
theorem rescue_closed (hlinked : ∀ x K, (∃ y ∈ K, R x y) → linked x K = true) (hn : pending.length ≤ n) {y : α}
    (hx : x ∈ pending) (hy : y ∈ (rescue linked n kept pending).1) (hR : R x y) :
    x ∈ (rescue linked n kept pending).1 := by
  induction n generalizing kept pending with
  | zero =>
    rw [List.eq_nil_of_length_eq_zero (Nat.le_zero.mp hn)] at hx
    exact absurd hx List.not_mem_nil
  | succ n ih =>
    rw [rescue] at hy ⊢
    split at hy
    · rename_i hnone
      rw [if_pos hnone]
      have hrescued : x ∈ pending.filter fun x => linked x kept :=
        List.mem_filter.mpr ⟨hx, hlinked x kept ⟨y, hy, hR⟩⟩
      rw [hnone] at hrescued
      exact absurd hrescued List.not_mem_nil
    · rename_i hsome
      rw [if_neg hsome]
      by_cases hin : x ∈ kept ++ pending.filter fun x => linked x kept
      · exact subset_rescue hin
      · refine ih ?_ (List.mem_filter.mpr ⟨hx, decide_eq_true hin⟩) hy
        -- the round took an element out
        obtain ⟨z, hz⟩ := List.exists_mem_of_ne_nil _ hsome
        have hlt : (pending.filter fun x => decide (x ∉ kept ++ pending.filter fun x => linked x kept)).length <
            pending.length := by
          refine List.length_filter_lt_length_iff_exists.mpr ⟨z, (List.mem_filter.mp hz).1, ?_⟩
          simpa using fun _ => List.mem_filter.mp hz
        omega

/-- **What the rounds reach** is the least set, whatever the rounds. -/
theorem mem_rescue_iff (hlinked : ∀ x K, linked x K = true ↔ ∃ y ∈ K, R x y) (hn : pending.length ≤ n) :
    x ∈ (rescue linked n kept pending).1 ↔ Supported R (· ∈ pending) (· ∈ kept) x := by
  constructor
  · exact supported_of_mem_rescue fun x K => (hlinked x K).mp
  · intro h
    exact h.least (fun y hy => subset_rescue hy) fun y z hy hz hR =>
      rescue_closed (fun x K => (hlinked x K).mpr) hn hy hz hR

/-- **What stays pending** is what was and is not in. -/
theorem rescue_pending (hdisjoint : ∀ x ∈ pending, x ∉ kept) :
    (rescue linked n kept pending).2 =
      pending.filter fun x => decide (x ∉ (rescue linked n kept pending).1) := by
  induction n generalizing kept pending with
  | zero => exact (List.filter_eq_self.mpr fun x hx => decide_eq_true (hdisjoint x hx)).symm
  | succ n ih =>
    rw [rescue]
    split
    · exact (List.filter_eq_self.mpr fun x hx => decide_eq_true (hdisjoint x hx)).symm
    · rw [ih fun x hx => of_decide_eq_true (List.mem_filter.mp hx).2, List.filter_filter]
      refine List.filter_congr fun x _ => ?_
      by_cases hin : x ∈ (rescue linked n (kept ++ pending.filter fun x => linked x kept)
        (pending.filter fun x => decide (x ∉ kept ++ pending.filter fun x => linked x kept))).1
      · rw [decide_eq_false (not_not_intro hin), Bool.false_and]
      · have hout : x ∉ kept ++ pending.filter fun x => linked x kept := fun hmem => hin (subset_rescue hmem)
        rw [decide_eq_true hin, decide_eq_true hout]
        rfl

end Rounds

end LocalSqlAgent
