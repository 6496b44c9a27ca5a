import LocalSqlAgent.Lib.Substitution

/-! # Texts in which a symbol is doubled

A quote inside a quoted text is written twice. Such a text is a sequence of other symbols and of pairs; a
cut that does not fall into a pair leaves two such texts, and a substitution whose matches do not either
leaves one.

* **`doubled`**: every occurrence of a symbol written twice; **`Paired`**: the texts of that form.
* **`Paired.split`**: a cut between two pairs.
* **`Paired.subAll`**: what a substitution leaves of a text of pairs. -/

namespace LocalSqlAgent

universe u

variable {α : Type u}

/-- **The symbol stands in pairs only.** -/
inductive Paired (q : α) : List α → Prop
  | nil : Paired q []
  | char {c : α} {cs : List α} (hc : c ≠ q) (h : Paired q cs) : Paired q (c :: cs)
  | pair {cs : List α} (h : Paired q cs) : Paired q (q :: q :: cs)

/-- Every occurrence of a symbol written twice. -/
def doubled [DecidableEq α] (q : α) (cs : List α) : List α := cs.flatMap fun c => if c = q then [q, q] else [c]

variable {q : α} {x y cs : List α} {find : Finder α} {b : Option α}

theorem paired_doubled [DecidableEq α] : Paired q (doubled q cs) := by
  induction cs with
  | nil => exact .nil
  | cons c cs ih =>
    rw [doubled, List.flatMap_cons]
    by_cases hc : c = q
    · rw [if_pos hc]
      exact .pair ih
    · rw [if_neg hc]
      exact .char hc ih

theorem Paired.of_not_mem (h : q ∉ cs) : Paired q cs := by
  induction cs with
  | nil => exact .nil
  | cons c cs ih =>
    rw [List.mem_cons, not_or] at h
    obtain ⟨hc, hcs⟩ := h
    exact .char (Ne.symm hc) (ih hcs)

theorem Paired.append (hx : Paired q x) (hy : Paired q y) : Paired q (x ++ y) := by
  induction hx with
  | nil => exact hy
  | char hc _ ih => exact .char hc ih
  | pair _ ih => exact .pair ih

/-- **A cut between two pairs.** -/
theorem Paired.split (h : Paired q (x ++ y)) (hedge : x.getLast? ≠ some q ∨ y.head? ≠ some q) :
    Paired q x ∧ Paired q y := by
  generalize hcs : x ++ y = cs at h
  induction h generalizing x with
  | nil =>
    obtain ⟨rfl, rfl⟩ := List.append_eq_nil_iff.mp hcs
    exact ⟨.nil, .nil⟩
  | @char c cs hc h ih =>
    cases x with
    | nil =>
      rw [List.nil_append] at hcs
      exact ⟨.nil, hcs ▸ .char hc h⟩
    | cons d x =>
      rw [List.cons_append, List.cons_eq_cons] at hcs
      obtain ⟨rfl, hrest⟩ := hcs
      cases x with
      | nil =>
        rw [List.nil_append] at hrest
        exact ⟨.char hc .nil, hrest ▸ h⟩
      | cons e x =>
        obtain ⟨hx, hy⟩ := ih (by rwa [List.getLast?_cons_cons] at hedge) hrest
        exact ⟨.char hc hx, hy⟩
  | @pair cs h ih =>
    cases x with
    | nil =>
      rw [List.nil_append] at hcs
      exact ⟨.nil, hcs ▸ .pair h⟩
    | cons d x =>
      rw [List.cons_append, List.cons_eq_cons] at hcs
      obtain ⟨rfl, hrest⟩ := hcs
      cases x with
      | nil =>
        -- the cut would fall into the pair
        rw [List.nil_append] at hrest
        rw [hrest] at hedge
        rcases hedge with hlast | hhead
        · exact absurd rfl hlast
        · exact absurd rfl hhead
      | cons e x =>
        rw [List.cons_append, List.cons_eq_cons] at hrest
        obtain ⟨rfl, hrest⟩ := hrest
        cases x with
        | nil =>
          rw [List.nil_append] at hrest
          exact ⟨.pair .nil, hrest ▸ h⟩
        | cons f x =>
          obtain ⟨hx, hy⟩ := ih (by rwa [List.getLast?_cons_cons, List.getLast?_cons_cons] at hedge) hrest
          exact ⟨.pair hx, hy⟩

/-- **A pattern that cuts no pair**: no match starts at the symbol or ends between two of them, and a match is
replaced by its beginning and by other symbols. -/
structure CutsNoPair (q : α) (find : Finder α) : Prop where
  notAt : ∀ b cs, find b (q :: cs) = none
  edge : ∀ b w rest new, find b (w ++ rest) = some (new, rest) → w.getLast? ≠ some q ∨ rest.head? ≠ some q
  new : ∀ b w rest new, find b (w ++ rest) = some (new, rest) →
    ∃ pre more tail, w = pre ++ more ∧ new = pre ++ tail ∧ pre.getLast? ≠ some q ∧ q ∉ tail

/-- **What a substitution leaves of a text of pairs.** -/
theorem Paired.subAll (h : Paired q cs) (hcuts : CutsNoPair q find) (htakes : TakesSome find) :
    Paired q (subAll find b 0 cs) := by
  induction hn : cs.length using Nat.strongRecOn generalizing b cs with
  | _ n ih =>
    cases h with
    | nil =>
      rw [subAll_nil]
      exact .nil
    | @char c cs hc h =>
      rw [List.length_cons] at hn
      cases hfind : find b (c :: cs) with
      | none =>
        rw [subAll_pass hfind]
        exact .char hc (ih cs.length (by omega) h rfl)
      | some m =>
        obtain ⟨w, hsplit, hne⟩ := htakes b _ m.1 m.2 hfind
        have hlength := congrArg List.length hsplit
        have hpos := List.length_pos_iff.mpr hne
        rw [List.length_cons, List.length_append] at hlength
        rw [hsplit] at hfind ⊢
        obtain ⟨hw, hrest⟩ := (hsplit ▸ Paired.char hc h).split (hcuts.edge b w m.2 m.1 hfind)
        obtain ⟨pre, more, tail, hpre, hnew, hlast, htail⟩ := hcuts.new b w m.2 m.1 hfind
        rw [hpre] at hw
        rw [subAll_hit hne hfind, hnew]
        exact (((hw.split (.inl hlast)).1).append (.of_not_mem htail)).append (ih m.2.length (by omega) hrest rfl)
    | @pair cs h =>
      rw [List.length_cons, List.length_cons] at hn
      rw [subAll_pass (hcuts.notAt b _), subAll_pass (hcuts.notAt _ _)]
      exact .pair (ih cs.length (by omega) h rfl)

end LocalSqlAgent
