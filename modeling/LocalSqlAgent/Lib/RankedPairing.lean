import Mathlib.Data.List.Sort
import Mathlib.Data.List.Enum
import Mathlib.Data.List.Perm.Subperm
import Mathlib.Data.List.Forall2
import Mathlib.Data.List.Dedup
import Mathlib.Data.Prod.Lex
import Mathlib.Logic.Equiv.Fin.Basic
import Mathlib.Data.List.FinRange

/-! # Pairings of two lists, and the ones a sort finds

Two lists are compared up to order by pairing their elements: every element of the one gets a partner of
its own in the other. `R` need not be transitive, so finding such a pairing is a matching problem; two
cheap strategies sort both lists by a key first.

* **`PairsUp R l l' pairs`**: `pairs` gives every element of `l` its own partner in `l'`.
* **`Pairable`**, **`OneToOne`**: such a pairing exists, into `l'` or onto it; `pairable_iff_groups` is
  the pairing group by group.
* **`sortByKey`**: a stable sort, and `rank`, the key with the position that breaks ties.
* **`forall₂_sortByKey_iff`**: the sorted lists agree position by position exactly when some pairing
  keeps the ranks.
* **`takeEach_sortByKey_iff`**: taking the first partner left succeeds exactly when some pairing passes
  over nothing but what went to an earlier element. -/

namespace LocalSqlAgent

universe u v w

variable {α : Type u} {β : Type v}

/-! ## Pairings -/

/-- **A pairing**: every element of `l` with a partner of its own among the elements of `l'`. -/
structure PairsUp (R : α → β → Prop) (l : List α) (l' : List β) (pairs : List (α × β)) : Prop where
  /-- Every element of `l`, once. -/
  left : (pairs.map Prod.fst).Perm l
  /-- Partners of their own. -/
  right : (pairs.map Prod.snd).Subperm l'
  /-- Partners agree. -/
  agree : ∀ x ∈ pairs, R x.1 x.2

/-- Every element of `l` can be given a partner of its own in `l'`. -/
def Pairable (R : α → β → Prop) (l : List α) (l' : List β) : Prop := ∃ pairs, PairsUp R l l' pairs

/-- **A one-to-one pairing** of the elements of the two lists. -/
def OneToOne (R : α → β → Prop) (l : List α) (l' : List β) : Prop :=
  ∃ pairs : List (α × β), (pairs.map Prod.fst).Perm l ∧ (pairs.map Prod.snd).Perm l' ∧ ∀ x ∈ pairs, R x.1 x.2

theorem oneToOne_iff {R : α → β → Prop} {l : List α} {l' : List β} :
    OneToOne R l l' ↔ l.length = l'.length ∧ Pairable R l l' := by
  constructor
  · rintro ⟨pairs, hl, hr, hagree⟩
    refine ⟨?_, pairs, hl, hr.subperm, hagree⟩
    rw [← hl.length_eq, ← hr.length_eq, List.length_map, List.length_map]
  · rintro ⟨hlen, pairs, hl, hr, hagree⟩
    refine ⟨pairs, hl, hr.perm_of_length_le ?_, hagree⟩
    rw [← hlen, ← hl.length_eq, List.length_map, List.length_map]

theorem oneToOne_of_forall₂ {R : α → β → Prop} {l : List α} {l' : List β} (h : List.Forall₂ R l l') :
    OneToOne R l l' := by
  have hlen := h.length_eq
  refine ⟨l.zip l', ?_, ?_, ?_⟩
  · rw [List.map_fst_zip (by omega)]
  · rw [List.map_snd_zip (by omega)]
  · intro x hx
    exact List.forall₂_iff_zip.mp h |>.2 (Prod.mk.eta ▸ hx)

theorem forall₂_congr_of_mem {R S : α → β → Prop} {l : List α} {l' : List β}
    (h : ∀ a ∈ l, ∀ b ∈ l', R a b ↔ S a b) : List.Forall₂ R l l' ↔ List.Forall₂ S l l' := by
  rw [List.forall₂_iff_zip, List.forall₂_iff_zip]
  refine and_congr_right' ⟨fun hR a b hab => ?_, fun hS a b hab => ?_⟩
  · exact (h a (List.of_mem_zip hab).1 b (List.of_mem_zip hab).2).mp (hR hab)
  · exact (h a (List.of_mem_zip hab).1 b (List.of_mem_zip hab).2).mpr (hS hab)

theorem Pairable.length_le {R : α → β → Prop} {l : List α} {l' : List β} (h : Pairable R l l') :
    l.length ≤ l'.length := by
  obtain ⟨pairs, hleft, hright, -⟩ := h
  rw [← hleft.length_eq, List.length_map, ← List.length_map (f := Prod.snd)]
  exact hright.length_le

/-- Permuting either list changes nothing. -/
theorem Pairable.perm {R : α → β → Prop} {l k : List α} {l' k' : List β} (h : Pairable R l l')
    (hl : l.Perm k) (hl' : l'.Perm k') : Pairable R k k' := by
  obtain ⟨pairs, hleft, hright, hagree⟩ := h
  exact ⟨pairs, hleft.trans hl, hright.trans hl'.subperm, hagree⟩

/-! ### Group by group -/

section Groups

variable {γ : Type w} [DecidableEq γ] {R : α → β → Prop} {s : α → γ} {s' : β → γ} {l : List α} {l' : List β}

theorem Pairable.group (hs : ∀ a b, R a b → s a = s' b) (h : Pairable R l l') (g : γ) :
    Pairable R (l.filter fun a => s a = g) (l'.filter fun b => s' b = g) := by
  obtain ⟨pairs, hleft, hright, hagree⟩ := h
  have hsame : pairs.filter (fun x => s x.1 = g) = pairs.filter fun x => s' x.2 = g :=
    List.filter_congr fun x hx => by rw [hs _ _ (hagree x hx)]
  refine ⟨pairs.filter fun x => s x.1 = g, ?_, ?_, fun x hx => hagree x (List.mem_of_mem_filter hx)⟩
  · have hmap : (pairs.filter fun x => s x.1 = g).map Prod.fst =
        (pairs.map Prod.fst).filter fun a => s a = g := by
      rw [List.filter_map]
      rfl
    rw [hmap]
    exact hleft.filter _
  · have hmap : (pairs.filter fun x => s x.1 = g).map Prod.snd =
        (pairs.map Prod.snd).filter fun b => s' b = g := by
      rw [hsame, List.filter_map]
      rfl
    rw [hmap]
    exact hright.filter _

/-- The elements of some groups, the first of them apart. -/
theorem filter_mem_cons_perm {g : γ} {gs : List γ} (hg : g ∉ gs) (f : α → γ) (k : List α) :
    (k.filter (fun a => f a = g) ++ k.filter fun a => f a ∈ gs).Perm
      (k.filter fun a => f a ∈ g :: gs) := by
  have hsplit := List.filter_append_perm (fun a => decide (f a = g)) (k.filter fun a => f a ∈ g :: gs)
  rw [List.filter_filter, List.filter_filter] at hsplit
  have hfirst : (k.filter fun a => decide (f a = g) && decide (f a ∈ g :: gs)) =
      k.filter fun a => f a = g :=
    List.filter_congr fun a _ => by
      by_cases h : f a = g <;> simp [h]
  have hrest : (k.filter fun a => !decide (f a = g) && decide (f a ∈ g :: gs)) =
      k.filter fun a => f a ∈ gs :=
    List.filter_congr fun a _ => by
      by_cases h : f a = g <;> simp [h, hg]
  rw [hfirst, hrest] at hsplit
  exact hsplit

/-- The pairings of some groups, put together. -/
theorem pairable_of_some_groups {gs : List γ} (hgs : gs.Nodup)
    (h : ∀ g, Pairable R (l.filter fun a => s a = g) (l'.filter fun b => s' b = g)) :
    Pairable R (l.filter fun a => s a ∈ gs) (l'.filter fun b => s' b ∈ gs) := by
  induction gs with
  | nil => exact ⟨[], by simp, by simp, by simp⟩
  | cons g gs ih =>
    obtain ⟨hg, hgs⟩ := List.nodup_cons.mp hgs
    obtain ⟨pairs, hleft, hright, hagree⟩ := h g
    obtain ⟨rest, hleft', hright', hagree'⟩ := ih hgs
    suffices hboth : Pairable R (l.filter (fun a => s a = g) ++ l.filter fun a => s a ∈ gs)
        (l'.filter (fun b => s' b = g) ++ l'.filter fun b => s' b ∈ gs) from
      hboth.perm (filter_mem_cons_perm hg s l) (filter_mem_cons_perm hg s' l')
    refine ⟨pairs ++ rest, ?_, ?_, ?_⟩
    · rw [List.map_append]
      exact hleft.append hleft'
    · rw [List.map_append]
      exact hright.append hright'
    · intro x hx
      exact (List.mem_append.mp hx).elim (hagree x) (hagree' x)

/-- **Pairing group by group**, where partners always belong to one group. -/
theorem pairable_iff_groups (hs : ∀ a b, R a b → s a = s' b) :
    Pairable R l l' ↔
      ∀ g, Pairable R (l.filter fun a => s a = g) (l'.filter fun b => s' b = g) := by
  refine ⟨fun h g => h.group hs g, fun h => ?_⟩
  obtain ⟨pairs, hleft, hright, hagree⟩ := pairable_of_some_groups (List.nodup_dedup (l.map s)) h
  have hall : (l.filter fun a => s a ∈ (l.map s).dedup) = l :=
    List.filter_eq_self.mpr fun a ha => by simpa using ⟨a, ha, rfl⟩
  rw [hall] at hleft
  exact ⟨pairs, hleft, hright.trans List.filter_sublist.subperm, hagree⟩

theorem count_map_eq_length_group {δ : Type*} (f : δ → γ) (k : List δ) (g : γ) :
    (k.map f).count g = (k.filter fun a => f a = g).length := by
  rw [List.count_eq_countP, List.countP_map, List.countP_eq_length_filter]
  exact congrArg List.length (List.filter_congr fun a _ => beq_eq_decide _ _)

/-- Lists whose groups have the same sizes have the same length. -/
theorem length_eq_of_groups
    (h : ∀ g, (l.filter fun a => s a = g).length = (l'.filter fun b => s' b = g).length) :
    l.length = l'.length := by
  have hperm : (l.map s).Perm (l'.map s') := by
    rw [List.perm_iff_count]
    intro g
    rw [count_map_eq_length_group, count_map_eq_length_group, h g]
  simpa using hperm.length_eq

theorem oneToOne_iff_groups (hs : ∀ a b, R a b → s a = s' b) :
    OneToOne R l l' ↔ ∀ g, OneToOne R (l.filter fun a => s a = g) (l'.filter fun b => s' b = g) := by
  simp only [oneToOne_iff, forall_and]
  rw [← pairable_iff_groups hs]
  constructor
  · rintro ⟨hlen, hpair⟩
    refine ⟨fun g => ?_, hpair⟩
    obtain ⟨pairs, hl, hr, hagree⟩ := oneToOne_iff.mpr ⟨hlen, hpair⟩
    have hmaps : (l.map s).Perm (l'.map s') := by
      refine (hl.map s).symm.trans (List.Perm.trans ?_ (hr.map s'))
      rw [List.map_map, List.map_map]
      exact List.Perm.of_eq (List.map_congr_left fun x hx => hs _ _ (hagree x hx))
    rw [← count_map_eq_length_group, ← count_map_eq_length_group]
    exact List.perm_iff_count.mp hmaps g
  · exact fun h => ⟨length_eq_of_groups h.1, h.2⟩

end Groups

/-! ## Rearrangements of positions -/

/-- A rearrangement of a list, as one of its positions. -/
theorem exists_equiv_of_perm {l l' : List α} (h : l.Perm l') :
    ∃ σ : Fin l.length ≃ Fin l'.length, ∀ i, l.get i = l'.get (σ i) := by
  induction h with
  | nil => exact ⟨Equiv.refl _, fun i => i.elim0⟩
  | cons a _ ih =>
    obtain ⟨σ, hσ⟩ := ih
    refine ⟨(finSuccEquiv _).trans ((Equiv.optionCongr σ).trans (finSuccEquiv _).symm), fun i => ?_⟩
    cases i using Fin.cases with
    | zero => rfl
    | succ i => simpa using hσ i
  | swap a b l =>
    refine ⟨Equiv.swap 0 1, fun i => ?_⟩
    cases i using Fin.cases with
    | zero => simp
    | succ i =>
      cases i using Fin.cases with
      | zero => simp
      | succ i =>
        have hkeep : Equiv.swap (0 : Fin (l.length + 2)) 1 i.succ.succ = i.succ.succ :=
          Equiv.swap_apply_of_ne_of_ne (Fin.succ_ne_zero _) fun h => Fin.succ_ne_zero i (Fin.succ_injective _ h)
        exact (congrArg (a :: b :: l).get hkeep).symm
  | trans _ _ ih ih' =>
    obtain ⟨σ, hσ⟩ := ih
    obtain ⟨τ, hτ⟩ := ih'
    exact ⟨σ.trans τ, fun i => (hσ i).trans (hτ _)⟩

/-- **The same elements up to `f`**, by a rearrangement of the positions. -/
theorem perm_map_iff_exists_equiv {γ : Type*} (f : α → γ) {l l' : List α} :
    (l.map f).Perm (l'.map f) ↔ ∃ σ : Fin l.length ≃ Fin l'.length, ∀ i, f (l.get i) = f (l'.get (σ i)) := by
  constructor
  · intro h
    obtain ⟨σ, hσ⟩ := exists_equiv_of_perm h
    have hl : l.length = (l.map f).length := (List.length_map f).symm
    refine ⟨(finCongr hl).trans (σ.trans (finCongr (List.length_map f))), fun i => ?_⟩
    simpa using hσ (finCongr hl i)
  · rintro ⟨σ, hσ⟩
    have hfin : ((List.finRange l.length).map σ).Perm (List.finRange l'.length) :=
      (List.perm_ext_iff_of_nodup ((List.nodup_finRange _).map σ.injective) (List.nodup_finRange _)).mpr fun j => by
        simpa using ⟨σ.symm j, σ.apply_symm_apply j⟩
    have hl : l.map f = ((List.finRange l.length).map σ).map fun j => f (l'.get j) := by
      rw [List.map_map]
      conv_lhs => rw [← List.map_get_finRange l, List.map_map]
      exact List.map_congr_left fun i _ => hσ i
    have hl' : l'.map f = (List.finRange l'.length).map fun j => f (l'.get j) := by
      conv_lhs => rw [← List.map_get_finRange l', List.map_map]
      rfl
    rw [hl, hl']
    exact hfin.map _

/-! ## Ranks -/

section Ranks

variable {κ : Type w} [LinearOrder κ]

/-- A stable sort by a key. -/
def sortByKey (key : α → κ) (l : List α) : List α := l.insertionSort fun a b => key a ≤ key b

theorem sortByKey_perm (key : α → κ) (l : List α) : (sortByKey key l).Perm l := List.perm_insertionSort _ _

theorem sortByKey_sorted (key : α → κ) (l : List α) :
    (sortByKey key l).Pairwise fun a b => key a ≤ key b :=
  haveI : IsTrans α fun a b => key a ≤ key b := ⟨fun _ _ _ => le_trans⟩
  haveI : Std.Total fun a b => key a ≤ key b := ⟨fun a b => le_total (key a) (key b)⟩
  List.pairwise_insertionSort _ _

theorem map_sortByKey {γ : Type*} (f : α → γ) (key : γ → κ) (l : List α) :
    (sortByKey (fun a => key (f a)) l).map f = sortByKey key (l.map f) :=
  List.map_insertionSort _ _ f l fun _ _ _ _ => Iff.rfl

/-- The **rank** of an element in its list: its key, then its position. -/
def rank (key : α → κ) (x : α × ℕ) : Lex (κ × ℕ) := toLex (key x.1, x.2)

theorem rank_le_iff {key : α → κ} {x y : α × ℕ} (h : x.2 < y.2) :
    rank key x ≤ rank key y ↔ key x.1 ≤ key y.1 := by
  rw [rank, rank, Prod.Lex.toLex_le_toLex, le_iff_lt_or_eq (a := key x.1)]
  exact or_congr_right (and_iff_left h.le)

omit [LinearOrder κ] in
theorem eq_of_rank_eq {key : α → κ} {x y : α × ℕ} (h : rank key x = rank key y) : x.2 = y.2 :=
  (Prod.mk.inj (toLex.injective h)).2

/-- **Sorting by rank is the stable sort**, where positions increase along the list. -/
theorem map_fst_sortByKey_rank (key : α → κ) {t : List (α × ℕ)} (h : t.Pairwise fun x y => x.2 < y.2) :
    (sortByKey (rank key) t).map Prod.fst = sortByKey key (t.map Prod.fst) := by
  induction t with
  | nil => rfl
  | cons x t ih =>
    obtain ⟨hx, ht⟩ := List.pairwise_cons.mp h
    rw [sortByKey, List.insertionSort_cons, List.map_cons, sortByKey, List.insertionSort_cons,
      ← sortByKey, ← sortByKey, ← ih ht]
    have hlater : ∀ y ∈ sortByKey (rank key) t, x.2 < y.2 := fun y hy =>
      hx y ((sortByKey_perm _ _).mem_iff.mp hy)
    generalize sortByKey (rank key) t = k at hlater
    induction k with
    | nil => rfl
    | cons y k ihk =>
      obtain ⟨hy, hk⟩ := List.forall_mem_cons.mp hlater
      rw [List.orderedInsert_cons, List.map_cons, List.orderedInsert_cons]
      by_cases hle : key x.1 ≤ key y.1
      · rw [if_pos ((rank_le_iff hy).mpr hle), if_pos hle]
        rfl
      · rw [if_neg (fun h => hle ((rank_le_iff hy).mp h)), if_neg hle, List.map_cons, ihk hk]

theorem zipIdx_positions_lt (l : List α) (n : ℕ) : (l.zipIdx n).Pairwise fun x y => x.2 < y.2 := by
  have h : ((l.zipIdx n).map Prod.snd).Pairwise (· < ·) := by
    rw [List.zipIdx_map_snd]
    exact List.pairwise_lt_range'
  exact List.pairwise_map.mp h

theorem map_fst_sortByKey_zipIdx (key : α → κ) (l : List α) :
    (sortByKey (rank key) l.zipIdx).map Prod.fst = sortByKey key l := by
  rw [map_fst_sortByKey_rank key (zipIdx_positions_lt l 0), List.zipIdx_map_fst]

/-- Ranks are strictly increasing once sorted. -/
theorem sortByKey_rank_zipIdx_lt (key : α → κ) (l : List α) :
    (sortByKey (rank key) l.zipIdx).Pairwise fun x y => rank key x < rank key y := by
  have hne : (sortByKey (rank key) l.zipIdx).Pairwise fun x y => x.2 ≠ y.2 :=
    ((sortByKey_perm _ _).pairwise_iff fun h => h.symm).mpr ((zipIdx_positions_lt l 0).imp Nat.ne_of_lt)
  exact ((sortByKey_sorted _ _).and hne).imp fun h => lt_of_le_of_ne h.1 fun heq => h.2 (eq_of_rank_eq heq)

end Ranks

/-! ## Position by position -/

section Strategies

variable {κ : Type*} [LinearOrder κ] {ρ : α → κ} {ρ' : β → κ} {l : List α} {l' : List β}

/-- The pairing keeps the ranks: of two elements the earlier one has the earlier partner. -/
def KeepsRank (ρ : α → κ) (ρ' : β → κ) (pairs : List (α × β)) : Prop :=
  ∀ x ∈ pairs, ∀ y ∈ pairs, ρ x.1 < ρ y.1 → ρ' x.2 < ρ' y.2

/-- Two strictly ranked arrangements of the same elements are the same list. -/
theorem eq_of_perm_of_ranked {k : List α} (hl : l.Pairwise fun a b => ρ a < ρ b)
    (hk : k.Pairwise fun a b => ρ a < ρ b) (h : k.Perm l) : k = l :=
  h.eq_of_pairwise (fun _ _ _ _ hab hba => absurd hab (lt_asymm hba)) hk hl

/-- **Ranked lists agree position by position** exactly when some one-to-one pairing keeps the ranks. -/
theorem forall₂_iff_keepsRank {R : α → β → Prop} (hl : l.Pairwise fun a b => ρ a < ρ b)
    (hl' : l'.Pairwise fun a b => ρ' a < ρ' b) (hlen : l.length = l'.length) :
    List.Forall₂ R l l' ↔ ∃ pairs, PairsUp R l l' pairs ∧ KeepsRank ρ ρ' pairs := by
  constructor
  · intro h
    refine ⟨l.zip l', ⟨?_, ?_, ?_⟩, ?_⟩
    · rw [List.map_fst_zip (by omega)]
    · rw [List.map_snd_zip (by omega)]
    · intro x hx
      exact (List.forall₂_iff_zip.mp h).2 (Prod.mk.eta ▸ hx)
    · intro x hx y hy hlt
      obtain ⟨i, hi, rfl⟩ := List.mem_iff_getElem.mp hx
      obtain ⟨j, hj, rfl⟩ := List.mem_iff_getElem.mp hy
      rw [List.length_zip] at hi hj
      rw [List.getElem_zip, List.getElem_zip] at hlt ⊢
      have hij : i < j := by
        by_contra hge
        rcases (not_lt.mp hge).eq_or_lt with heq | hji
        · subst heq
          exact lt_irrefl _ hlt
        · exact lt_asymm hlt (List.pairwise_iff_getElem.mp hl j i (by omega) (by omega) hji)
      exact List.pairwise_iff_getElem.mp hl' i j (by omega) (by omega) hij
  · rintro ⟨pairs, ⟨hleft, hright, hagree⟩, hkeeps⟩
    have hright' : (pairs.map Prod.snd).Perm l' := hright.perm_of_length_le (by
      rw [← hlen, ← hleft.length_eq, List.length_map, List.length_map])
    -- the pairs, in the order of their first halves
    have hsorted : (sortByKey (fun x : α × β => ρ x.1) pairs).map Prod.fst = l := by
      have hperm := ((sortByKey_perm (fun x : α × β => ρ x.1) pairs).map Prod.fst).trans hleft
      refine eq_of_perm_of_ranked hl ?_ hperm
      have hne : ((sortByKey (fun x : α × β => ρ x.1) pairs).map Prod.fst).Pairwise fun a b => ρ a ≠ ρ b :=
        (hperm.pairwise_iff fun h => h.symm).mpr (hl.imp ne_of_lt)
      refine (List.Pairwise.and ?_ hne).imp fun h => lt_of_le_of_ne h.1 h.2
      exact List.pairwise_map.mpr (sortByKey_sorted _ _)
    have hsorted' : (sortByKey (fun x : α × β => ρ x.1) pairs).map Prod.snd = l' := by
      refine eq_of_perm_of_ranked hl' ?_ (((sortByKey_perm _ _).map Prod.snd).trans hright')
      have hfirst : (sortByKey (fun x : α × β => ρ x.1) pairs).Pairwise fun x y => ρ x.1 < ρ y.1 := by
        rw [← hsorted] at hl
        exact (List.pairwise_map (R := fun a b => ρ a < ρ b)).mp hl
      refine List.pairwise_map.mpr (hfirst.imp_of_mem fun hx hy hlt => ?_)
      exact hkeeps _ ((sortByKey_perm _ _).mem_iff.mp hx) _ ((sortByKey_perm _ _).mem_iff.mp hy) hlt
    rw [← hsorted, ← hsorted', List.forall₂_map_left_iff, List.forall₂_map_right_iff, List.forall₂_same]
    exact fun x hx => hagree x ((sortByKey_perm _ _).mem_iff.mp hx)

/-! ## The first partner left -/

/-- Take, for each element in turn, the first partner left. -/
def takeEach (r : α → β → Bool) : List α → List β → Bool
  | [], _ => true
  | a :: l, l' => l'.any (r a) && takeEach r l (l'.eraseP (r a))

/-- The pairing passes over nothing but what went to an earlier element: **first come, first served**. -/
def FirstServed (R : α → β → Prop) (ρ : α → κ) (ρ' : β → κ) (l' : List β) (pairs : List (α × β)) : Prop :=
  ∀ x ∈ pairs, ∀ b ∈ l', R x.1 b → ρ' b < ρ' x.2 → ∃ y ∈ pairs, y.2 = b ∧ ρ y.1 < ρ x.1

/-- **Taking the first partner left succeeds** on ranked lists exactly when some pairing serves first come
first. -/
theorem takeEach_iff_firstServed {r : α → β → Bool} (hl : l.Pairwise fun a b => ρ a < ρ b)
    (hl' : l'.Pairwise fun a b => ρ' a < ρ' b) :
    takeEach r l l' = true ↔
      ∃ pairs, PairsUp (fun a b => r a b = true) l l' pairs ∧
        FirstServed (fun a b => r a b = true) ρ ρ' l' pairs := by
  induction l generalizing l' with
  | nil =>
    refine iff_of_true rfl ⟨[], ⟨List.Perm.refl _, List.nil_subperm, ?_⟩, ?_⟩
    · exact fun x hx => absurd hx List.not_mem_nil
    · exact fun x hx => absurd hx List.not_mem_nil
  | cons a l ih =>
    obtain ⟨ha, htail⟩ := List.pairwise_cons.mp hl
    rw [takeEach, Bool.and_eq_true, List.any_eq_true]
    constructor
    · rintro ⟨⟨b, hb, hab⟩, htake⟩
      obtain ⟨c, before, after, hbefore, hac, hsplit, herase⟩ := List.exists_of_eraseP hb hab
      rw [herase] at htake
      have hrest : (before ++ after).Sublist l' := by
        rw [hsplit]
        exact List.Sublist.append_left (List.sublist_cons_self _ _) _
      obtain ⟨pairs, hpairs, hserved⟩ := (ih htail (hl'.sublist hrest)).mp htake
      refine ⟨(a, c) :: pairs, ⟨hpairs.left.cons _, ?_, ?_⟩, ?_⟩
      · have hperm : l'.Perm (c :: (before ++ after)) := by
          rw [hsplit]
          exact List.perm_middle
        exact ((List.subperm_cons _).mpr hpairs.right).trans hperm.symm.subperm
      · exact List.forall_mem_cons.mpr ⟨hac, hpairs.agree⟩
      · rintro x hx b' hb' hxb hlt
        rcases List.mem_cons.mp hx with rfl | hx
        · -- nothing before the first partner agrees
          exfalso
          rw [hsplit] at hb' hl'
          rcases List.mem_append.mp hb' with hmem | hmem
          · exact hbefore b' hmem hxb
          · rcases List.mem_cons.mp hmem with rfl | hmem
            · exact lt_irrefl _ hlt
            · have hafter := (List.pairwise_cons.mp (List.pairwise_append.mp hl').2.1).1 b' hmem
              exact lt_asymm hlt hafter
        · have hxl : x.1 ∈ l := hpairs.left.mem_iff.mp (List.mem_map.mpr ⟨x, hx, rfl⟩)
          by_cases hbc : b' = c
          · exact ⟨(a, c), List.mem_cons_self, hbc.symm, ha _ hxl⟩
          · have hmem : b' ∈ before ++ after := by
              rw [hsplit, List.mem_append, List.mem_cons] at hb'
              rw [List.mem_append]
              tauto
            obtain ⟨y, hy, hyb, hlt'⟩ := hserved x hx b' hmem hxb hlt
            exact ⟨y, List.mem_cons_of_mem _ hy, hyb, hlt'⟩
    · rintro ⟨pairs, hpairs, hserved⟩
      obtain ⟨⟨a', b⟩, hx, heq⟩ := List.mem_map.mp (hpairs.left.mem_iff.mpr List.mem_cons_self)
      replace heq : a' = a := heq
      subst heq
      have hb : b ∈ l' := hpairs.right.subset (List.mem_map.mpr ⟨_, hx, rfl⟩)
      have hab := hpairs.agree _ hx
      obtain ⟨c, before, after, hbefore, hac, hsplit, herase⟩ := List.exists_of_eraseP hb hab
      refine ⟨⟨b, hb, hab⟩, ?_⟩
      -- the element's partner is the first one that agrees, as nothing is served before it
      have hbc : b = c := by
        by_contra hne
        have hcmem : c ∈ l' := by simp [hsplit]
        have hlt : ρ' c < ρ' b := by
          rw [hsplit] at hb hl'
          rcases List.mem_append.mp hb with hmem | hmem
          · exact absurd hab (hbefore b hmem)
          · rcases List.mem_cons.mp hmem with heq | hmem
            · exact absurd heq hne
            · exact (List.pairwise_cons.mp (List.pairwise_append.mp hl').2.1).1 b hmem
        obtain ⟨y, hy, -, hlt'⟩ := hserved _ hx c hcmem hac hlt
        have hyl := hpairs.left.mem_iff.mp (List.mem_map.mpr ⟨y, hy, rfl⟩)
        rcases List.mem_cons.mp hyl with heq | hmem
        · rw [heq] at hlt'
          exact lt_irrefl _ hlt'
        · exact lt_asymm hlt' (ha _ hmem)
      subst hbc
      rw [herase]
      have hrest : (before ++ after).Sublist l' := by
        rw [hsplit]
        exact List.Sublist.append_left (List.sublist_cons_self _ _) _
      rw [ih htail (hl'.sublist hrest)]
      obtain ⟨first, last, rfl⟩ := List.append_of_mem hx
      have hmiddle : (first ++ (a', b) :: last).Perm ((a', b) :: (first ++ last)) := List.perm_middle
      refine ⟨first ++ last, ⟨?_, ?_, ?_⟩, ?_⟩
      · exact ((hmiddle.map Prod.fst).symm.trans hpairs.left).cons_inv
      · have hsub := (hmiddle.map Prod.snd).symm.subperm.trans hpairs.right
        have hperm : l'.Perm (b :: (before ++ after)) := by
          rw [hsplit]
          exact List.perm_middle
        exact (List.subperm_cons _).mp (hsub.trans hperm.subperm)
      · exact fun y hy => hpairs.agree y (hmiddle.mem_iff.mpr (List.mem_cons_of_mem _ hy))
      · intro y hy b' hb' hyb hlt
        have hy' := hmiddle.mem_iff.mpr (List.mem_cons_of_mem _ hy)
        obtain ⟨z, hz, hzb, hlt'⟩ := hserved y hy' b' (hrest.subset hb') hyb hlt
        rcases List.mem_cons.mp (hmiddle.mem_iff.mp hz) with rfl | hz
        · -- the partner itself is not left
          exfalso
          rw [hsplit] at hl'
          have hnodup : (before ++ b :: after).Nodup := hl'.imp fun h => by
            rintro rfl
            exact lt_irrefl _ h
          have hnot : b ∉ before ++ after := (List.nodup_cons.mp (List.perm_middle.nodup_iff.mp hnodup)).1
          rw [← hzb] at hb'
          exact hnot hb'
        · exact ⟨z, hz, hzb, hlt'⟩

end Strategies

/-! ## After a sort by key -/

section Sorted

variable {κ : Type*} [LinearOrder κ] {key : α → κ} {key' : β → κ} {l : List α} {l' : List β}

theorem PairsUp.perm {R : α → β → Prop} {k : List α} {k' : List β} {pairs : List (α × β)}
    (hl : l.Perm k) (hl' : l'.Perm k') : PairsUp R l l' pairs ↔ PairsUp R k k' pairs :=
  ⟨fun h => ⟨h.left.trans hl, h.right.trans hl'.subperm, h.agree⟩,
    fun h => ⟨h.left.trans hl.symm, h.right.trans hl'.symm.subperm, h.agree⟩⟩

/-- **The sorted lists agree position by position** exactly when some one-to-one pairing of the elements
keeps their ranks. -/
theorem forall₂_sortByKey_iff {R : α → β → Prop} (hlen : l.length = l'.length) :
    List.Forall₂ R (sortByKey key l) (sortByKey key' l') ↔
      ∃ pairs, PairsUp (fun x y => R x.1 y.1) l.zipIdx l'.zipIdx pairs ∧
        KeepsRank (rank key) (rank key') pairs := by
  rw [← map_fst_sortByKey_zipIdx key l, ← map_fst_sortByKey_zipIdx key' l', List.forall₂_map_left_iff,
    List.forall₂_map_right_iff, forall₂_iff_keepsRank (sortByKey_rank_zipIdx_lt key l)
      (sortByKey_rank_zipIdx_lt key' l') (by
        rw [(sortByKey_perm _ _).length_eq, (sortByKey_perm _ _).length_eq, List.length_zipIdx,
          List.length_zipIdx, hlen])]
  exact exists_congr fun pairs => and_congr_left' (PairsUp.perm (sortByKey_perm _ _) (sortByKey_perm _ _))

theorem takeEach_map {γ δ : Type*} (f : γ → α) (f' : δ → β) (r : α → β → Bool) (k : List γ) (k' : List δ) :
    takeEach r (k.map f) (k'.map f') = takeEach (fun x y => r (f x) (f' y)) k k' := by
  induction k generalizing k' with
  | nil => rfl
  | cons x k ih =>
    rw [List.map_cons, takeEach, takeEach, List.any_map, List.eraseP_map, ih]
    rfl

/-- **Taking the first partner left after sorting** succeeds exactly when some pairing serves first come
first, by ranks. -/
theorem takeEach_sortByKey_iff {r : α → β → Bool} :
    takeEach r (sortByKey key l) (sortByKey key' l') = true ↔
      ∃ pairs, PairsUp (fun x y => r x.1 y.1 = true) l.zipIdx l'.zipIdx pairs ∧
        FirstServed (fun x y => r x.1 y.1 = true) (rank key) (rank key') l'.zipIdx pairs := by
  rw [← map_fst_sortByKey_zipIdx key l, ← map_fst_sortByKey_zipIdx key' l', takeEach_map,
    takeEach_iff_firstServed (sortByKey_rank_zipIdx_lt key l) (sortByKey_rank_zipIdx_lt key' l')]
  refine exists_congr fun pairs => and_congr (PairsUp.perm (sortByKey_perm _ _) (sortByKey_perm _ _)) ?_
  exact forall₂_congr fun x _ => forall_congr' fun b => by rw [(sortByKey_perm _ _).mem_iff]

/-- Lists that agree position by position are served in order. -/
theorem takeEach_of_forall₂ {r : α → β → Bool} (h : List.Forall₂ (fun a b => r a b = true) l l') :
    takeEach r l l' = true := by
  induction h with
  | nil => rfl
  | cons hab _ ih =>
    rw [takeEach, List.any_cons, hab, Bool.true_or, List.eraseP_cons_of_pos hab, ih]
    rfl

theorem takeEach_congr {r s : α → β → Bool} {l : List α} {l' : List β}
    (h : ∀ a ∈ l, ∀ b ∈ l', r a b = s a b) : takeEach r l l' = takeEach s l l' := by
  induction l generalizing l' with
  | nil => rfl
  | cons a l ih =>
    have ha := h a List.mem_cons_self
    have hany : l'.any (r a) = l'.any (s a) := by
      rw [Bool.eq_iff_iff, List.any_eq_true, List.any_eq_true]
      exact exists_congr fun b => and_congr_right fun hb => by rw [ha b hb]
    have herase : l'.eraseP (r a) = l'.eraseP (s a) := by
      clear ih hany
      induction l' with
      | nil => rfl
      | cons b l' ih =>
        rw [List.eraseP_cons, List.eraseP_cons, ha b List.mem_cons_self,
          ih (fun a ha b hb => h a ha b (List.mem_cons_of_mem _ hb)) fun b hb => ha b (List.mem_cons_of_mem _ hb)]
    rw [takeEach, takeEach, hany, herase,
      ih fun a ha b hb => h a (List.mem_cons_of_mem _ ha) b (List.mem_of_mem_eraseP hb)]

/-- What is taken is a pairing. -/
theorem pairable_of_takeEach {r : α → β → Bool} (h : takeEach r l l' = true) :
    Pairable (fun a b => r a b = true) l l' := by
  induction l generalizing l' with
  | nil => exact ⟨[], List.Perm.refl _, List.nil_subperm, fun x hx => absurd hx List.not_mem_nil⟩
  | cons a l ih =>
    rw [takeEach, Bool.and_eq_true, List.any_eq_true] at h
    obtain ⟨⟨b, hb, hab⟩, htake⟩ := h
    obtain ⟨c, before, after, -, hac, hsplit, herase⟩ := List.exists_of_eraseP hb hab
    rw [herase] at htake
    obtain ⟨pairs, hleft, hright, hagree⟩ := ih htake
    have hperm : (c :: (before ++ after)).Perm l' := by
      rw [hsplit]
      exact List.perm_middle.symm
    refine ⟨(a, c) :: pairs, hleft.cons _, ?_, List.forall_mem_cons.mpr ⟨hac, hagree⟩⟩
    exact ((List.subperm_cons _).mpr hright).trans hperm.subperm

theorem length_le_of_takeEach {r : α → β → Bool} {l : List α} {l' : List β}
    (h : takeEach r l l' = true) : l.length ≤ l'.length := by
  induction l generalizing l' with
  | nil => exact Nat.zero_le _
  | cons a l ih =>
    rw [takeEach, Bool.and_eq_true, List.any_eq_true] at h
    obtain ⟨⟨b, hb, hab⟩, htake⟩ := h
    have hlen := ih htake
    rw [List.length_eraseP_of_mem hb hab] at hlen
    have hpos := List.length_pos_of_mem hb
    rw [List.length_cons]
    omega

/-- Where everything agrees, enough rows are enough. -/
theorem takeEach_of_forall {r : α → β → Bool} {l : List α} {l' : List β}
    (h : ∀ a ∈ l, ∀ b ∈ l', r a b = true) (hlen : l.length ≤ l'.length) : takeEach r l l' = true := by
  induction l generalizing l' with
  | nil => rfl
  | cons a l ih =>
    cases l' with
    | nil => exact absurd hlen (by simp)
    | cons b l' =>
      have hab := h a List.mem_cons_self b List.mem_cons_self
      rw [takeEach, List.any_cons, hab, Bool.true_or, Bool.true_and, List.eraseP_cons_of_pos hab]
      refine ih (fun a ha b hb => h a (List.mem_cons_of_mem _ ha) b (List.mem_cons_of_mem _ hb)) ?_
      simpa using hlen

end Sorted

end LocalSqlAgent
