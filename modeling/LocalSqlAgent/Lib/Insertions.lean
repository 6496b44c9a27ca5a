import Mathlib.Data.List.Basic

/-! # Inserting one text at several offsets

A rewriter that must leave a text as written inserts at offsets it has read off the original, going
from the last to the first so that the offsets still ahead stay valid.

* **`insertAll ins offsets l`**: those insertions, for offsets given in ascending order.
* **`cutPoints pieces`**: where the pieces of a text meet.
* **`exists_pieces`**: the result is the original text cut at the offsets, with `ins` between the
  pieces; nothing else is added and nothing is lost. -/

namespace LocalSqlAgent

universe u

variable {α : Type u} {ins l : List α} {offsets : List ℕ}

/-- One insertion: `text[:offset] + ins + text[offset:]`. -/
def insertOne (ins : List α) (text : List α) (offset : ℕ) : List α :=
  text.take offset ++ ins ++ text.drop offset

/-- **The insertions of `ins`** at offsets in ascending order, carried out from the last one. -/
def insertAll (ins : List α) (offsets : List ℕ) (l : List α) : List α :=
  offsets.reverse.foldl (insertOne ins) l

@[simp] theorem insertAll_nil : insertAll ins [] l = l := rfl

theorem insertAll_cons {o : ℕ} : insertAll ins (o :: offsets) l =
    insertOne ins (insertAll ins offsets l) o := by
  simp [insertAll]

/-- The offsets at which consecutive pieces of a text meet. -/
def cutPoints : List (List α) → List ℕ
  | [] => []
  | [_] => []
  | p :: q :: rest => p.length :: (cutPoints (q :: rest)).map (p.length + ·)

theorem cutPoints_cons {p : List α} {rest : List (List α)} (h : rest ≠ []) :
    cutPoints (p :: rest) = p.length :: (cutPoints rest).map (p.length + ·) := by
  obtain ⟨q, rest, rfl⟩ := List.exists_cons_of_ne_nil h
  rfl

theorem intercalate_cons {p : List α} {rest : List (List α)} (h : rest ≠ []) :
    ins.intercalate (p :: rest) = p ++ ins ++ ins.intercalate rest := by
  obtain ⟨q, rest, rfl⟩ := List.exists_cons_of_ne_nil h
  simp [List.intercalate, List.append_assoc]

/-- Every piece but the last is followed by an insertion. -/
theorem length_intercalate (ins : List α) (pieces : List (List α)) :
    (ins.intercalate pieces).length =
      pieces.flatten.length + ins.length * (cutPoints pieces).length := by
  induction pieces with
  | nil => simp [cutPoints, List.intercalate]
  | cons p rest ih =>
    by_cases hrest : rest = []
    · simp [hrest, cutPoints, List.intercalate]
    · rw [intercalate_cons hrest, cutPoints_cons hrest, List.length_append, List.length_append, ih,
        List.flatten_cons, List.length_append, List.length_cons, List.length_map, Nat.mul_succ]
      omega

/-- An insertion behind the first `o` characters is one in the rest of the text. -/
theorem insertOne_behind {o p : ℕ} (hop : o ≤ p) :
    insertOne ins l p = l.take o ++ insertOne ins (l.drop o) (p - o) := by
  have hsplit : l.take p = l.take o ++ (l.drop o).take (p - o) := by
    rw [← List.take_add]
    congr 1
    omega
  have hrest : l.drop p = (l.drop o).drop (p - o) := by
    rw [List.drop_drop]
    congr 1
    omega
  rw [insertOne, insertOne, hsplit, hrest]
  simp only [List.append_assoc]

/-- Insertions behind the first `o` characters are insertions in the rest of the text. -/
theorem insertAll_behind {o : ℕ} (hbehind : ∀ p ∈ offsets, o ≤ p) (hlen : o ≤ l.length) :
    insertAll ins offsets l = l.take o ++ insertAll ins (offsets.map (· - o)) (l.drop o) := by
  have htake : (l.take o).length = o := List.length_take_of_le hlen
  induction offsets with
  | nil => simp
  | cons p rest ih =>
    obtain ⟨hp, hrest⟩ := List.forall_mem_cons.mp hbehind
    rw [insertAll_cons, List.map_cons, insertAll_cons, ih hrest, insertOne_behind hp,
      List.take_left' htake, List.drop_left' htake]

/-- **What the insertions make of a text**: its pieces between the offsets, joined by `ins`. -/
theorem exists_pieces (ins : List α) (hasc : offsets.Pairwise (· < ·)) (hle : ∀ o ∈ offsets, o ≤ l.length) :
    ∃ pieces, pieces ≠ [] ∧ pieces.flatten = l ∧ ins.intercalate pieces = insertAll ins offsets l ∧
      cutPoints pieces = offsets := by
  induction hn : offsets.length generalizing offsets l with
  | zero =>
    obtain rfl := List.length_eq_zero_iff.mp hn
    exact ⟨[l], by simp [cutPoints, List.intercalate]⟩
  | succ n ih =>
    obtain ⟨o, rest, rfl⟩ := List.exists_cons_of_length_eq_add_one hn
    obtain ⟨hbehind, hrest⟩ := List.pairwise_cons.mp hasc
    obtain ⟨ho, hle⟩ := List.forall_mem_cons.mp hle
    have htake : (l.take o).length = o := List.length_take_of_le ho
    -- The later offsets, counted from `o`, are offsets of the text behind `o`.
    have hshifted : (rest.map (· - o)).Pairwise (· < ·) := by
      refine List.pairwise_map.mpr (hrest.imp_of_mem fun {a b} ha _ hab => ?_)
      have hoa := hbehind a ha
      omega
    have hbounded : ∀ p ∈ rest.map (· - o), p ≤ (l.drop o).length := by
      intro p hp
      obtain ⟨q, hq, rfl⟩ := List.mem_map.mp hp
      rw [List.length_drop]
      exact Nat.sub_le_sub_right (hle q hq) o
    obtain ⟨pieces, hne, hflat, hjoin, hcut⟩ := ih hshifted hbounded (by simpa using hn)
    refine ⟨l.take o :: pieces, by simp, ?_, ?_, ?_⟩
    · rw [List.flatten_cons, hflat, List.take_append_drop]
    · rw [intercalate_cons hne, hjoin, insertAll_cons,
        insertAll_behind (fun p hp => Nat.le_of_lt (hbehind p hp)) ho, insertOne,
        List.take_left' htake, List.drop_left' htake]
    · have hback : (rest.map (· - o)).map (o + ·) = rest := by
        calc (rest.map (· - o)).map (o + ·)
            = rest.map ((o + ·) ∘ (· - o)) := List.map_map
          _ = rest.map id := List.map_congr_left fun p hp =>
              Nat.add_sub_cancel' (Nat.le_of_lt (hbehind p hp))
          _ = rest := List.map_id rest
      rw [cutPoints_cons hne, htake, hcut, hback]

end LocalSqlAgent
