import Mathlib.Data.List.Sort

/-! # The first of a list in an order

The `k` elements of a list that come first by a key, in the order of their keys, equal ones as they stand.

* **`leading`**: they, by sorting.
* **`Leads`**: what makes a list the first `k` of another, without sorting; **`leads_leading`** -/

namespace LocalSqlAgent

universe u v

/-- Keeping first occurrences leaves no repeats. -/
theorem eraseDups_nodup {α : Type u} [DecidableEq α] : ∀ l : List α, l.eraseDups.Nodup
  | [] => List.nodup_nil
  | a :: l => by
    rw [List.eraseDups_cons, List.nodup_cons, List.mem_eraseDups]
    exact ⟨by simp, eraseDups_nodup _⟩
termination_by l => l.length
decreasing_by exact Nat.lt_succ_of_le (List.length_filter_le _ l)

variable {α : Type u} {β : Type v} [LinearOrder β]

/-- The first `k` elements by a key. -/
def leading (key : α → β) (k : ℕ) (l : List α) : List α := (l.insertionSort fun a b => key a ≤ key b).take k

/-- **The first `k` of `l` by a key**: in order, among those of `l` as often as there, as many as there can
be, and none left out comes strictly before one of them. -/
structure Leads (key : α → β) (k : ℕ) (l first : List α) : Prop where
  /-- In the order of the keys. -/
  ordered : first.Pairwise fun a b => key a ≤ key b
  /-- Of the list, none more often than there. -/
  among : first.Subperm l
  /-- As many as there are, `k` at most. -/
  length : first.length = min k l.length
  /-- None before them is left out. -/
  first : ∀ a ∈ first, ∀ b ∈ l, b ∉ first → key a ≤ key b

/-- **Sorting finds them.** -/
theorem leads_leading (key : α → β) (k : ℕ) (l : List α) : Leads key k l (leading key k l) := by
  let sorted := l.insertionSort fun a b => key a ≤ key b
  have htotal : Std.Total fun a b : α => key a ≤ key b := ⟨fun a b => le_total (key a) (key b)⟩
  have htrans : IsTrans α fun a b => key a ≤ key b := ⟨fun a b c => le_trans⟩
  have hordered : sorted.Pairwise fun a b => key a ≤ key b := List.pairwise_insertionSort _ l
  have hperm : sorted.Perm l := List.perm_insertionSort _ l
  have hsplit : sorted.take k ++ sorted.drop k = sorted := List.take_append_drop k sorted
  refine ⟨hordered.sublist (List.take_sublist k sorted), ?_, ?_, ?_⟩
  · exact (List.take_sublist k sorted).subperm.trans hperm.subperm
  · show (sorted.take k).length = _
    rw [List.length_take, hperm.length_eq]
  · intro a ha b hb hout
    have hmem : b ∈ sorted.drop k := by
      have hb' : b ∈ sorted := hperm.mem_iff.mpr hb
      rw [← hsplit] at hb'
      exact (List.mem_append.mp hb').resolve_left hout
    rw [← hsplit] at hordered
    exact (List.pairwise_append.mp hordered).2.2 a ha b hmem

namespace Leads

variable {key : α → β} {k : ℕ} {l first : List α}

theorem mem (h : Leads key k l first) {a : α} (ha : a ∈ first) : a ∈ l := h.among.subset ha

theorem nodup (h : Leads key k l first) (hl : l.Nodup) : first.Nodup := by
  obtain ⟨l', hperm, hsub⟩ := h.among
  exact hperm.nodup_iff.mp (hl.sublist hsub)

/-- Where something can lead, something does. -/
theorem eq_nil_iff (h : Leads key k l first) (hk : 0 < k) : first = [] ↔ l = [] := by
  rw [← List.length_eq_zero_iff, ← List.length_eq_zero_iff, h.length]
  omega

end Leads

end LocalSqlAgent
