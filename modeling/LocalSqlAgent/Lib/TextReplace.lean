import Mathlib.Data.List.Infix

/-! # Replacing words

`str.replace(old, new)` cuts a text at the occurrences of `old`, from the left and without overlap, and
puts `new` between the pieces.

* **`not_infix_pieces`**: no piece holds `old`.
* **`Barrier m w`**: no occurrence of `m` reaches into `w`; then a word that occurs in none of two texts
  occurs in neither of them joined by `w` (`Barrier.not_infix`).
* **`Barrier.not_infix_replaceWord`**: replacing by a barrier keeps a text free of `m`, and
  **`not_infix_replaceWord`** frees it of `old`.
* **`replaceWord_append_separator`**: a word without a letter of `old` cuts the text in two that are
  replaced apart. -/

namespace LocalSqlAgent

universe u

variable {α : Type u}

/-! ## Barriers -/

/-- **No occurrence of `m` reaches into `w`**: none begins in it, ends in it, covers it or lies in it. -/
structure Barrier (m w : List α) : Prop where
  noneBegins : ∀ t, t <:+ w → t <+: m → t = []
  noneEnds : ∀ t, t <+: w → t <:+ m → t = []
  noneCovers : ¬ w <:+: m
  noneInside : ¬ m <:+: w

theorem prefix_append_cases {t w b : List α} (h : t <+: w ++ b) : t <+: w ∨ w <+: t := by
  obtain hle | hle := Nat.le_total t.length w.length
  · exact .inl (List.prefix_of_prefix_length_le h (List.prefix_append w b) hle)
  · exact .inr (List.prefix_of_prefix_length_le (List.prefix_append w b) h hle)

/-- A prefix that reaches over a letter has it. -/
theorem prefix_of_prefix_append_cons {old s t : List α} {c : α} (hc : c ∉ old) (h : old <+: s ++ c :: t) :
    old <+: s := by
  obtain h | ⟨r, rfl⟩ := prefix_append_cases h
  · exact h
  · rw [List.prefix_append_right_inj] at h
    cases r with
    | nil => rw [List.append_nil]
    | cons x r =>
      obtain ⟨rfl, -⟩ := List.cons_prefix_cons.mp h
      exact absurd (List.mem_append_right _ List.mem_cons_self) hc

/-- **Joining by a barrier** makes no occurrence. -/
theorem Barrier.not_infix {m w a b : List α} (hw : Barrier m w) (ha : ¬ m <:+: a) (hb : ¬ m <:+: b) :
    ¬ m <:+: a ++ (w ++ b) := by
  have hright : ¬ m <:+: w ++ b := by
    intro h
    obtain h | h | ⟨t, t', rfl, ht, ht'⟩ := List.infix_append_iff.mp h
    · exact hw.noneInside h
    · exact hb h
    · obtain rfl := hw.noneBegins t ht (List.prefix_append t t')
      exact hb ht'.isInfix
  intro h
  obtain h | h | ⟨t, t', rfl, ht, ht'⟩ := List.infix_append_iff.mp h
  · exact ha h
  · exact hright h
  · obtain hle | hle := prefix_append_cases ht'
    · obtain rfl := hw.noneEnds t' hle (List.suffix_append t t')
      rw [List.append_nil] at ha
      exact ha ht.isInfix
    · exact hw.noneCovers (hle.isInfix.trans (List.suffix_append t t').isInfix)

/-- The conditions on the finitely many ends of the word. -/
theorem barrier_iff {m w : List α} : Barrier m w ↔
    (∀ t ∈ w.tails, t <+: m → t = []) ∧ (∀ t ∈ w.inits, t <:+ m → t = []) ∧ ¬ w <:+: m ∧ ¬ m <:+: w := by
  constructor
  · rintro ⟨hbegins, hends, hcovers, hinside⟩
    exact ⟨fun t ht => hbegins t ((List.mem_tails t w).mp ht), fun t ht => hends t ((List.mem_inits t w).mp ht),
      hcovers, hinside⟩
  · rintro ⟨hbegins, hends, hcovers, hinside⟩
    exact ⟨fun t ht => hbegins t ((List.mem_tails t w).mpr ht), fun t ht => hends t ((List.mem_inits t w).mpr ht),
      hcovers, hinside⟩

instance [DecidableEq α] (m w : List α) : Decidable (Barrier m w) := decidable_of_iff _ barrier_iff.symm

/-- A letter that the word does not have is a barrier. -/
theorem barrier_singleton {m : List α} {c : α} (hc : c ∉ m) (hm : 2 ≤ m.length) : Barrier m [c] := by
  have hnil : ∀ {t : List α}, t ⊆ [c] → t ⊆ m → t = [] := by
    intro t ht htm
    refine List.eq_nil_iff_forall_not_mem.mpr fun x hx => hc ?_
    obtain rfl := List.mem_singleton.mp (ht hx)
    exact htm hx
  refine ⟨fun t ht htm => hnil ht.subset htm.subset, fun t ht htm => hnil ht.subset htm.subset, ?_, ?_⟩
  · exact fun h => hc (h.subset List.mem_cons_self)
  · intro h
    have := h.length_le
    rw [List.length_singleton] at this
    omega

/-! ## Cutting and joining -/

/-- The pieces between the separators. -/
def joinPieces (sep : List α) : List (List α) → List α
  | [] => []
  | [p] => p
  | p :: q :: rest => p ++ (sep ++ joinPieces sep (q :: rest))

theorem joinPieces_cons {sep p : List α} {ps : List (List α)} (h : ps ≠ []) :
    joinPieces sep (p :: ps) = p ++ (sep ++ joinPieces sep ps) := by
  obtain ⟨q, qs, rfl⟩ := List.exists_cons_of_ne_nil h
  rfl

theorem joinPieces_modifyHead {sep : List α} {c : α} {ps : List (List α)} (h : ps ≠ []) :
    joinPieces sep (ps.modifyHead (c :: ·)) = c :: joinPieces sep ps := by
  obtain ⟨q, qs, rfl⟩ := List.exists_cons_of_ne_nil h
  cases qs <;> rfl

/-- **Pieces free of a word**, joined by a barrier to it, are free of it together. -/
theorem Barrier.not_infix_joinPieces {m sep : List α} (hw : Barrier m sep) (hm : m ≠ []) {ps : List (List α)}
    (hps : ∀ p ∈ ps, ¬ m <:+: p) : ¬ m <:+: joinPieces sep ps := by
  induction ps with
  | nil => exact fun h => hm (List.infix_nil.mp h)
  | cons p rest ih =>
    cases rest with
    | nil => exact hps p List.mem_cons_self
    | cons q rest =>
      exact hw.not_infix (hps p List.mem_cons_self) (ih fun p hp => hps p (List.mem_cons_of_mem _ hp))

variable [DecidableEq α]

/-- The text cut at the occurrences of `old`, from the left; `skip` characters of one are passed over. -/
def pieces (old : List α) : ℕ → List α → List (List α)
  | _, [] => [[]]
  | skip + 1, _ :: cs => pieces old skip cs
  | 0, c :: cs =>
    if old.isPrefixOf (c :: cs) then [] :: pieces old (old.length - 1) cs
    else (pieces old 0 cs).modifyHead (c :: ·)

theorem pieces_cons (old : List α) (c : α) (cs : List α) : pieces old 0 (c :: cs) =
    if old.isPrefixOf (c :: cs) then [] :: pieces old (old.length - 1) cs
    else (pieces old 0 cs).modifyHead (c :: ·) := rfl

/-- **`str.replace(old, new)`.** -/
def replaceWord (old new s : List α) : List α := joinPieces new (pieces old 0 s)

theorem pieces_ne_nil (old : List α) (skip : ℕ) (s : List α) : pieces old skip s ≠ [] := by
  induction s generalizing skip with
  | nil => exact List.cons_ne_nil _ _
  | cons c cs ih =>
    cases skip with
    | succ skip => exact ih skip
    | zero =>
      rw [pieces_cons]
      split
      · exact List.cons_ne_nil _ _
      · obtain ⟨p, ps, hps⟩ := List.exists_cons_of_ne_nil (ih 0)
        rw [hps, List.modifyHead_cons]
        exact List.cons_ne_nil _ _

/-- The first piece begins the text. -/
theorem head_pieces_prefix (old s : List α) {p : List α} {ps : List (List α)} (h : pieces old 0 s = p :: ps) :
    p <+: s := by
  induction s generalizing p ps with
  | nil =>
    cases h
    exact List.prefix_rfl
  | cons c cs ih =>
    rw [pieces_cons] at h
    split at h
    · cases h
      exact List.nil_prefix
    · obtain ⟨q, qs, hqs⟩ := List.exists_cons_of_ne_nil (pieces_ne_nil old 0 cs)
      rw [hqs, List.modifyHead_cons] at h
      cases h
      exact List.cons_prefix_cons.mpr ⟨rfl, ih hqs⟩

/-- **No piece holds the word the text was cut at.** -/
theorem not_infix_pieces {old : List α} (hold : old ≠ []) (skip : ℕ) (s : List α) :
    ∀ p ∈ pieces old skip s, ¬ old <:+: p := by
  induction s generalizing skip with
  | nil =>
    intro p hp
    obtain rfl := List.mem_singleton.mp hp
    exact fun h => hold (List.infix_nil.mp h)
  | cons c cs ih =>
    cases skip with
    | succ skip => exact ih skip
    | zero =>
      rw [pieces_cons]
      split
      · intro p hp
        obtain rfl | hp := List.mem_cons.mp hp
        · exact fun h => hold (List.infix_nil.mp h)
        · exact ih _ p hp
      · rename_i hnot
        obtain ⟨q, qs, hqs⟩ := List.exists_cons_of_ne_nil (pieces_ne_nil old 0 cs)
        rw [hqs, List.modifyHead_cons]
        intro p hp
        obtain rfl | hp := List.mem_cons.mp hp
        · -- An occurrence at the head of this piece is one at the head of the text.
          intro h
          obtain h | h := List.infix_cons_iff.mp h
          · have hhead := h.trans (List.cons_prefix_cons.mpr ⟨rfl, head_pieces_prefix old cs hqs⟩)
            exact hnot (List.isPrefixOf_iff_prefix.mpr hhead)
          · exact ih 0 q (hqs ▸ List.mem_cons_self) h
        · exact ih 0 p (hqs ▸ List.mem_cons_of_mem _ hp)

/-- Every piece is a part of the text. -/
theorem infix_of_mem_pieces {old : List α} {skip : ℕ} {s p : List α} (hp : p ∈ pieces old skip s) :
    p <:+: s := by
  induction s generalizing skip p with
  | nil =>
    obtain rfl := List.mem_singleton.mp hp
    exact List.infix_rfl
  | cons c cs ih =>
    cases skip with
    | succ skip => exact List.infix_cons (ih hp)
    | zero =>
      rw [pieces_cons] at hp
      split at hp
      · obtain rfl | hp := List.mem_cons.mp hp
        · exact List.nil_infix
        · exact List.infix_cons (ih hp)
      · obtain ⟨q, qs, hqs⟩ := List.exists_cons_of_ne_nil (pieces_ne_nil old 0 cs)
        rw [hqs, List.modifyHead_cons] at hp
        obtain rfl | hp := List.mem_cons.mp hp
        · exact (List.cons_prefix_cons.mpr ⟨rfl, head_pieces_prefix old cs hqs⟩).isInfix
        · exact List.infix_cons (ih (hqs ▸ List.mem_cons_of_mem _ hp))

/-- **Cut and joined again** a text is what it was. -/
theorem joinPieces_pieces {old : List α} (hold : old ≠ []) {skip : ℕ} {s : List α} (hskip : skip ≤ s.length) :
    joinPieces old (pieces old skip s) = s.drop skip := by
  induction s generalizing skip with
  | nil =>
    rw [List.drop_nil]
    rfl
  | cons c cs ih =>
    cases skip with
    | succ skip => exact ih (Nat.succ_le_succ_iff.mp hskip)
    | zero =>
      rw [pieces_cons, List.drop_zero]
      split
      · rename_i hbegins
        obtain ⟨rest, hrest⟩ := List.isPrefixOf_iff_prefix.mp hbegins
        obtain ⟨x, old, rfl⟩ := List.exists_cons_of_ne_nil hold
        obtain ⟨rfl, hcs⟩ := List.cons.inj hrest
        have hcs : cs = old ++ rest := hcs.symm
        rw [joinPieces_cons (pieces_ne_nil _ _ _), ih (by simp [hcs]), List.length_cons, Nat.add_sub_cancel,
          hcs, List.drop_left]
        rfl
      · rw [joinPieces_modifyHead (pieces_ne_nil _ _ _), ih (Nat.zero_le _), List.drop_zero]

/-- **The first cut is at the first occurrence.** -/
theorem head_pieces_length_le {old : List α} {a b p : List α} {ps : List (List α)}
    (h : pieces old 0 (a ++ (old ++ b)) = p :: ps) (hold : old ≠ []) : p.length ≤ a.length := by
  induction a generalizing p ps with
  | nil =>
    obtain ⟨x, old, rfl⟩ := List.exists_cons_of_ne_nil hold
    have hbegins : (x :: old).isPrefixOf (x :: (old ++ b)) = true :=
      List.isPrefixOf_iff_prefix.mpr (List.prefix_append (x :: old) b)
    rw [List.nil_append, List.cons_append, pieces_cons, if_pos hbegins] at h
    cases h
    exact Nat.zero_le _
  | cons c a ih =>
    rw [List.cons_append, pieces_cons] at h
    split at h
    · cases h
      exact Nat.zero_le _
    · obtain ⟨q, qs, hqs⟩ := List.exists_cons_of_ne_nil (pieces_ne_nil old 0 (a ++ (old ++ b)))
      rw [hqs, List.modifyHead_cons] at h
      cases h
      exact Nat.succ_le_succ (ih hqs)

/-- **Replacing frees the text of the word**, when what replaces it is a barrier. -/
theorem not_infix_replaceWord {old new : List α} (hold : old ≠ []) (hbarrier : Barrier old new) (s : List α) :
    ¬ old <:+: replaceWord old new s :=
  hbarrier.not_infix_joinPieces hold (not_infix_pieces hold 0 s)

/-- Replacing by a barrier keeps a text free of a word. -/
theorem Barrier.not_infix_replaceWord {m old new s : List α} (hbarrier : Barrier m new) (hm : m ≠ [])
    (hs : ¬ m <:+: s) : ¬ m <:+: replaceWord old new s :=
  hbarrier.not_infix_joinPieces hm fun _ hp h => hs (h.trans (infix_of_mem_pieces hp))

/-- A text without the word stays as it is. -/
theorem replaceWord_of_not_infix {old : List α} (new : List α) {s : List α} (hs : ¬ old <:+: s) :
    replaceWord old new s = s := by
  have hone : pieces old 0 s = [s] := by
    induction s with
    | nil => rfl
    | cons c cs ih =>
      have hhead : ¬ old.isPrefixOf (c :: cs) = true := fun h =>
        hs (List.isPrefixOf_iff_prefix.mp h).isInfix
      rw [pieces_cons, if_neg hhead, ih fun h => hs (List.infix_cons h), List.modifyHead_cons]
  rw [replaceWord, hone, joinPieces]

/-! ## Letters that the word does not have -/

/-- The pieces before and after a letter that the word does not have. -/
theorem joinPieces_pieces_append_cons {old : List α} (hold : old ≠ []) (new : List α) {c : α} (hc : c ∉ old)
    (s t : List α) {skip : ℕ} (hskip : skip ≤ s.length) :
    joinPieces new (pieces old skip (s ++ c :: t)) =
      joinPieces new (pieces old skip s) ++ c :: joinPieces new (pieces old 0 t) := by
  induction s generalizing skip with
  | nil =>
    obtain rfl : skip = 0 := Nat.le_zero.mp hskip
    have hnot : ¬ old.isPrefixOf (c :: t) = true := by
      intro h
      have hnil := prefix_of_prefix_append_cons (s := []) hc (List.isPrefixOf_iff_prefix.mp h)
      exact hold (List.prefix_nil.mp hnil)
    show joinPieces new (pieces old 0 (c :: t)) = c :: joinPieces new (pieces old 0 t)
    rw [pieces_cons, if_neg hnot]
    exact joinPieces_modifyHead (pieces_ne_nil _ _ _)
  | cons x s ih =>
    cases skip with
    | succ skip => exact ih (Nat.succ_le_succ_iff.mp hskip)
    | zero =>
      rw [List.cons_append, pieces_cons, pieces_cons]
      -- The word begins here in the whole text exactly when it begins here before the letter.
      by_cases h : old.isPrefixOf (x :: s) = true
      · have hbegins := List.isPrefixOf_iff_prefix.mp h
        have hlonger : old.isPrefixOf (x :: (s ++ c :: t)) = true :=
          List.isPrefixOf_iff_prefix.mpr (hbegins.trans (List.prefix_append (x :: s) _))
        have hlength : old.length - 1 ≤ s.length := by
          have := hbegins.length_le
          rw [List.length_cons] at this
          omega
        rw [if_pos h, if_pos hlonger, joinPieces_cons (pieces_ne_nil _ _ _), joinPieces_cons (pieces_ne_nil _ _ _),
          ih hlength]
        simp only [List.nil_append, List.append_assoc]
      · have hlonger : ¬ old.isPrefixOf (x :: (s ++ c :: t)) = true := fun h' =>
          h (List.isPrefixOf_iff_prefix.mpr
            (prefix_of_prefix_append_cons (s := x :: s) hc (List.isPrefixOf_iff_prefix.mp h')))
        rw [if_neg h, if_neg hlonger, joinPieces_modifyHead (pieces_ne_nil _ _ _),
          joinPieces_modifyHead (pieces_ne_nil _ _ _), ih (Nat.zero_le _), List.cons_append]

/-- **A letter that the word does not have** cuts the text: what stands before and after it is replaced
apart. -/
theorem replaceWord_append_cons {old : List α} (hold : old ≠ []) (new : List α) {c : α} (hc : c ∉ old)
    (s t : List α) : replaceWord old new (s ++ c :: t) = replaceWord old new s ++ c :: replaceWord old new t :=
  joinPieces_pieces_append_cons hold new hc s t (Nat.zero_le _)

/-- **A word without a letter of the replaced one** cuts the text. -/
theorem replaceWord_append_separator {old : List α} (hold : old ≠ []) (new : List α) {w : List α} (hw : w ≠ [])
    (hout : ∀ c ∈ w, c ∉ old) (s t : List α) :
    replaceWord old new (s ++ (w ++ t)) = replaceWord old new s ++ (w ++ replaceWord old new t) := by
  induction w generalizing s with
  | nil => exact absurd rfl hw
  | cons c w ih =>
    rw [List.cons_append, replaceWord_append_cons hold new (hout c List.mem_cons_self)]
    cases w with
    | nil => rfl
    | cons d w =>
      have hrest := ih (List.cons_ne_nil d w) (fun x hx => hout x (List.mem_cons_of_mem _ hx)) []
      rw [List.nil_append] at hrest
      rw [hrest]
      rfl

end LocalSqlAgent
