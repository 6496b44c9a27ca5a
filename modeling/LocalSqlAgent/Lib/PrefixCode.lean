import Mathlib.Data.List.Basic

/-! # Prefix-free encodings

An encoding of values as lists is **prefix-free** when what follows an encoded value never changes how it
is read: `PrefixFree enc`. Sequences of values inherit it: closed by a mark no value begins with
(`PrefixFree.terminated`), or separated by one mark and closed by another (`PrefixFree.separated`). Where a
value ends only at the mark behind it (`Delimited`), sequences of them are still told apart
(`Delimited.spaced_injective`). -/

namespace LocalSqlAgent

universe u v

variable {α : Type u} {β : Type v} {enc : α → List β} {stop sep : β}

/-- **Prefix-free**: two encoded values with anything behind them agree only as equal values with the
same behind them. -/
def PrefixFree (enc : α → List β) : Prop := ∀ a b s t, enc a ++ s = enc b ++ t → a = b ∧ s = t

/-- No encoded value begins with the mark. -/
def NeverStarts (enc : α → List β) (mark : β) : Prop := ∀ a s t, enc a ++ s ≠ mark :: t

/-- An opening mark in front. -/
theorem PrefixFree.opened (h : PrefixFree enc) (mark : β) : PrefixFree fun a => mark :: enc a := by
  intro a b s t heq
  exact h a b s t (List.cons.inj heq).2

/-- Read through an injection. -/
theorem PrefixFree.comp {γ : Type*} (h : PrefixFree enc) {f : γ → α} (hf : Function.Injective f) :
    PrefixFree fun c => enc (f c) := by
  intro c d s t heq
  obtain ⟨hcd, hst⟩ := h _ _ s t heq
  exact ⟨hf hcd, hst⟩

/-- The values in turn, and a closing mark. -/
def terminated (enc : α → List β) (stop : β) (xs : List α) : List β := xs.flatMap enc ++ [stop]

theorem terminated_cons (x : α) (xs : List α) : terminated enc stop (x :: xs) = enc x ++ terminated enc stop xs := by
  unfold terminated
  rw [List.flatMap_cons, List.append_assoc]

/-- **Closed sequences**, by a mark that begins no value. -/
theorem PrefixFree.terminated (h : PrefixFree enc) (hstop : NeverStarts enc stop) :
    PrefixFree (terminated enc stop) := by
  intro xs
  induction xs with
  | nil =>
    intro ys s t heq
    cases ys with
    | nil => exact ⟨rfl, (List.cons.inj heq).2⟩
    | cons y ys =>
      rw [terminated_cons, List.append_assoc] at heq
      exact absurd heq.symm (hstop y _ _)
  | cons x xs ih =>
    intro ys s t heq
    cases ys with
    | nil =>
      rw [terminated_cons, List.append_assoc] at heq
      exact absurd heq (hstop x _ _)
    | cons y ys =>
      rw [terminated_cons, terminated_cons, List.append_assoc, List.append_assoc] at heq
      obtain ⟨rfl, hrest⟩ := h x y _ _ heq
      obtain ⟨rfl, hst⟩ := ih ys s t hrest
      exact ⟨rfl, hst⟩

/-- The values with one mark between them, and a closing mark. -/
def separated (enc : α → List β) (sep stop : β) : List α → List β
  | [] => [stop]
  | [x] => enc x ++ [stop]
  | x :: y :: rest => enc x ++ sep :: separated enc sep stop (y :: rest)

/-- After the first value comes a separator or the end. -/
theorem separated_cons (x : α) (xs : List α) :
    separated enc sep stop (x :: xs) =
      enc x ++ if xs = [] then [stop] else sep :: separated enc sep stop xs := by
  cases xs with
  | nil => rfl
  | cons y rest => rw [if_neg (List.cons_ne_nil _ _), separated]

/-- **Separated sequences**, with two different marks, the closing one beginning no value. -/
theorem PrefixFree.separated (h : PrefixFree enc) (hne : sep ≠ stop) (hstop : NeverStarts enc stop) :
    PrefixFree (separated enc sep stop) := by
  intro xs
  induction xs with
  | nil =>
    intro ys s t heq
    cases ys with
    | nil => exact ⟨rfl, (List.cons.inj heq).2⟩
    | cons y ys =>
      rw [separated_cons, List.append_assoc] at heq
      exact absurd heq.symm (hstop y _ _)
  | cons x xs ih =>
    intro ys s t heq
    cases ys with
    | nil =>
      rw [separated_cons, List.append_assoc] at heq
      exact absurd heq (hstop x _ _)
    | cons y ys =>
      rw [separated_cons, separated_cons, List.append_assoc, List.append_assoc] at heq
      obtain ⟨rfl, hrest⟩ := h x y _ _ heq
      by_cases hxs : xs = []
      · by_cases hys : ys = []
        · subst hxs hys
          exact ⟨rfl, (List.cons.inj hrest).2⟩
        · rw [if_pos hxs, if_neg hys] at hrest
          exact absurd (List.cons.inj hrest).1.symm hne
      · by_cases hys : ys = []
        · rw [if_neg hxs, if_pos hys] at hrest
          exact absurd (List.cons.inj hrest).1 hne
        · rw [if_neg hxs, if_neg hys] at hrest
          obtain ⟨rfl, hst⟩ := ih ys s t (List.cons.inj hrest).2
          exact ⟨rfl, hst⟩

/-! ## Encodings read up to a mark -/

/-- **Delimited**: an encoding that is told from what follows it once that begins with a mark. -/
def Delimited (enc : α → List β) (marks : List β) : Prop :=
  ∀ a b x y s t, x ∈ marks → y ∈ marks → enc a ++ x :: s = enc b ++ y :: t → a = b ∧ x :: s = y :: t

/-- Lists without a mark are told apart up to the first one. -/
theorem eq_of_append_mark {marks k l s t : List β} {x y : β} (hk : ∀ c ∈ k, c ∉ marks) (hl : ∀ c ∈ l, c ∉ marks)
    (hx : x ∈ marks) (hy : y ∈ marks) (h : k ++ x :: s = l ++ y :: t) : k = l ∧ x :: s = y :: t := by
  induction k generalizing l with
  | nil =>
    cases l with
    | nil => exact ⟨rfl, h⟩
    | cons c l => exact absurd hx ((List.cons.inj h).1 ▸ hl c List.mem_cons_self)
  | cons c k ih =>
    obtain ⟨hc, hk⟩ := List.forall_mem_cons.mp hk
    cases l with
    | nil => exact absurd hy ((List.cons.inj h).1 ▸ hc)
    | cons d l =>
      obtain ⟨hcd, hrest⟩ := List.cons.inj h
      obtain ⟨hkl, hst⟩ := ih hk (fun c hc => hl c (List.mem_cons_of_mem _ hc)) hrest
      exact ⟨by rw [hcd, hkl], hst⟩

/-- The values with a mark and a filler between them, and a closing mark. -/
def spaced (enc : α → List β) (sep fill stop : β) : List α → List β
  | [] => [stop]
  | [x] => enc x ++ [stop]
  | x :: y :: rest => enc x ++ sep :: fill :: spaced enc sep fill stop (y :: rest)

theorem spaced_cons (fill : β) (x : α) (xs : List α) :
    spaced enc sep fill stop (x :: xs) =
      enc x ++ if xs = [] then [stop] else sep :: fill :: spaced enc sep fill stop xs := by
  cases xs with
  | nil => rfl
  | cons y rest => rw [if_neg (List.cons_ne_nil _ _), spaced]

/-- **Spaced sequences of delimited values** tell the values. -/
theorem Delimited.spaced_injective {fill : β} (h : Delimited enc [sep, stop]) (hne : sep ≠ stop)
    (hstop : NeverStarts enc stop) : Function.Injective (spaced enc sep fill stop) := by
  intro xs
  induction xs with
  | nil =>
    intro ys heq
    cases ys with
    | nil => rfl
    | cons y ys =>
      rw [spaced_cons] at heq
      exact absurd heq.symm (hstop y _ _)
  | cons x xs ih =>
    intro ys heq
    cases ys with
    | nil =>
      rw [spaced_cons] at heq
      exact absurd heq (hstop x _ _)
    | cons y ys =>
      rw [spaced_cons, spaced_cons] at heq
      by_cases hxs : xs = [] <;> by_cases hys : ys = []
      · rw [if_pos hxs, if_pos hys] at heq
        rw [(h x y _ _ _ _ (by simp) (by simp) heq).1, hxs, hys]
      · rw [if_pos hxs, if_neg hys] at heq
        exact absurd (List.cons.inj (h x y _ _ _ _ (by simp) (by simp) heq).2).1.symm hne
      · rw [if_neg hxs, if_pos hys] at heq
        exact absurd (List.cons.inj (h x y _ _ _ _ (by simp) (by simp) heq).2).1 hne
      · rw [if_neg hxs, if_neg hys] at heq
        obtain ⟨hxy, hrest⟩ := h x y _ _ _ _ (by simp) (by simp) heq
        rw [hxy, ih (List.cons.inj (List.cons.inj hrest).2).2]

/-- Lists with a mark between them. -/
def joined (sep : β) : List (List β) → List β
  | [] => []
  | [x] => x
  | x :: y :: rest => x ++ sep :: joined sep (y :: rest)

theorem joined_cons_cons (x y : List β) (rest : List (List β)) :
    joined sep (x :: y :: rest) = x ++ sep :: joined sep (y :: rest) := rfl

/-- A joined list holds at least as many of a mark as its parts that hold one. -/
theorem length_le_count_joined [DecidableEq β] {mark : β} {parts : List (List β)} (hparts : ∀ p ∈ parts, mark ∈ p) :
    parts.length ≤ (joined sep parts).count mark := by
  induction parts with
  | nil => exact Nat.zero_le _
  | cons p rest ih =>
    obtain ⟨hp, hrest⟩ := List.forall_mem_cons.mp hparts
    have hone : 1 ≤ p.count mark := List.one_le_count_iff.mpr hp
    have hmore := ih hrest
    cases rest with
    | nil => exact hone
    | cons q rest =>
      rw [joined_cons_cons, List.count_append, List.count_cons, List.length_cons]
      omega

end LocalSqlAgent
