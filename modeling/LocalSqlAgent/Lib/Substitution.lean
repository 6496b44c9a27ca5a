import Mathlib.Data.List.Basic
import Mathlib.Data.List.TakeWhile

/-! # Substitution of matches

`re.search` and `re.sub` as recursions over a text. A pattern is what it finds at one place: it sees the
symbol in front of the place (so that it can ask for a word boundary) and the text behind it, and says what
the match is replaced by and what follows the match.

* **`subAll`**: every match replaced, from the left and without overlap; **`dropped`** marks the symbols of
  the matches.
* **`subAll_induction`**: the text is passed symbol by symbol or match by match.
* **`Separates p find`**: the symbols `p` stand in no match and hide what is in front of them; then a text
  is replaced piece by piece (`splitOnP_subAll`).
* **`eq_of_countP_subAll`**: where every match loses a symbol of some kind, a text that keeps them all
  holds no match.
* **`EndsBefore.split`**: around a symbol that no match takes, the text is replaced in two parts. -/

namespace LocalSqlAgent

universe u v

variable {α : Type u} {β : Type v}

/-! ## Matches -/

/-- **What a pattern finds** behind a symbol: the replacement of the match and what follows it. -/
abbrev Finder (α : Type u) := Option α → List α → Option (List α × List α)

/-- `re.search`: what is found at the first place where something is. -/
def searchFrom (find : Option α → List α → Option β) : Option α → List α → Option β
  | b, [] => find b []
  | b, c :: cs => (find b (c :: cs)).or (searchFrom find (some c) cs)

/-- `re.sub`, the symbols of a match passed over. -/
def subAll (find : Finder α) : Option α → ℕ → List α → List α
  | _, _, [] => []
  | _, skip + 1, c :: cs => subAll find (some c) skip cs
  | b, 0, c :: cs =>
    match find b (c :: cs) with
    | some (new, rest) => new ++ subAll find (some c) (cs.length - rest.length) cs
    | none => c :: subAll find (some c) 0 cs

/-- The symbols that stand in a match. -/
def dropped (find : Finder α) : Option α → ℕ → List α → List Bool
  | _, _, [] => []
  | _, skip + 1, c :: cs => true :: dropped find (some c) skip cs
  | b, 0, c :: cs =>
    match find b (c :: cs) with
    | some (_, rest) => true :: dropped find (some c) (cs.length - rest.length) cs
    | none => false :: dropped find (some c) 0 cs

/-- **Every match takes something**, and what follows it is the rest of the text. -/
def TakesSome (find : Finder α) : Prop :=
  ∀ b cs new rest, find b cs = some (new, rest) → ∃ w, cs = w ++ rest ∧ w ≠ []

variable {find : Finder α} {b : Option α} {c q : α} {cs x y w new rest : List α} {f p : α → Bool}

theorem TakesSome.find_nil (htakes : TakesSome find) : find b [] = none := by
  cases hfind : find b [] with
  | none => rfl
  | some m =>
    obtain ⟨w, hw, hne⟩ := htakes b [] m.1 m.2 hfind
    exact absurd (List.append_eq_nil_iff.mp hw.symm).1 hne

/-! ## One match after the other -/

theorem subAll_nil {skip : ℕ} : subAll find b skip [] = [] := by
  cases skip <;> rfl

theorem subAll_succ {skip : ℕ} : subAll find b (skip + 1) (c :: cs) = subAll find (some c) skip cs := rfl

theorem subAll_skip : subAll find b w.length (w ++ rest) = subAll find (w.getLast?.or b) 0 rest := by
  induction w generalizing b with
  | nil => rfl
  | cons c w ih =>
    rw [List.length_cons, List.cons_append, subAll_succ, ih, List.getLast?_cons]
    cases w.getLast? <;> rfl

/-- A place without a match. -/
theorem subAll_pass (h : find b (c :: cs) = none) :
    subAll find b 0 (c :: cs) = c :: subAll find (some c) 0 cs := by
  rw [subAll, h]

theorem subAll_found {m : List α × List α} (h : find b (c :: cs) = some m) :
    subAll find b 0 (c :: cs) = m.1 ++ subAll find (some c) (cs.length - m.2.length) cs := by
  rw [subAll, h]

/-- What stands in front counts only as far as the pattern looks at it. -/
theorem subAll_congr {b' : Option α} (hfind : ∀ cs, find b cs = find b' cs) :
    subAll find b 0 cs = subAll find b' 0 cs := by
  cases cs with
  | nil => rfl
  | cons c cs =>
    cases hb : find b (c :: cs) with
    | none => rw [subAll_pass hb, subAll_pass ((hfind (c :: cs)).symm.trans hb)]
    | some m => rw [subAll_found hb, subAll_found ((hfind (c :: cs)).symm.trans hb)]

/-- A place with a match. -/
theorem subAll_hit (hne : w ≠ []) (h : find b (w ++ rest) = some (new, rest)) :
    subAll find b 0 (w ++ rest) = new ++ subAll find w.getLast? 0 rest := by
  cases w with
  | nil => exact absurd rfl hne
  | cons c w =>
    have hskip : (w ++ rest).length - rest.length = w.length := by
      rw [List.length_append, Nat.add_sub_cancel]
    rw [List.cons_append] at h ⊢
    rw [subAll_found h]
    simp only [hskip, subAll_skip, List.getLast?_cons]
    cases w.getLast? <;> rfl

/-- **A text is passed** symbol by symbol where nothing is found and match by match where something is. -/
theorem subAll_induction (htakes : TakesSome find) {P : Option α → List α → Prop} (hnil : ∀ b, P b [])
    (hpass : ∀ b c cs, find b (c :: cs) = none → P (some c) cs → P b (c :: cs))
    (hhit : ∀ b w new rest, w ≠ [] → find b (w ++ rest) = some (new, rest) → P w.getLast? rest →
      P b (w ++ rest)) : P b cs := by
  -- on the length: what follows a match is shorter
  induction hn : cs.length using Nat.strongRecOn generalizing b cs with
  | _ n ih =>
    cases cs with
    | nil => exact hnil b
    | cons c cs =>
      rw [List.length_cons] at hn
      cases hfind : find b (c :: cs) with
      | none => exact hpass b c cs hfind (ih cs.length (by omega) rfl)
      | some m =>
        obtain ⟨w, hsplit, hne⟩ := htakes b (c :: cs) m.1 m.2 hfind
        have hlength := congrArg List.length hsplit
        have hpos := List.length_pos_iff.mpr hne
        rw [List.length_cons, List.length_append] at hlength
        rw [hsplit] at hfind ⊢
        exact hhit b w m.1 m.2 hne hfind (ih m.2.length (by omega) rfl)

/-! ## No match and the first one -/

theorem searchFrom_cons {find : Option α → List α → Option β} :
    searchFrom find b (c :: cs) = (find b (c :: cs)).or (searchFrom find (some c) cs) := rfl

theorem searchFrom_cons_eq_none {find : Option α → List α → Option β} :
    searchFrom find b (c :: cs) = none ↔ find b (c :: cs) = none ∧ searchFrom find (some c) cs = none := by
  rw [searchFrom_cons, Option.or_eq_none_iff]

/-- What is found somewhere is looked for there at last. -/
theorem searchFrom_ne_none {find : Option α → List α → Option β} (h : find (x.getLast?.or b) y ≠ none) :
    searchFrom find b (x ++ y) ≠ none := by
  induction x generalizing b with
  | nil =>
    rw [List.getLast?_nil, Option.none_or] at h
    cases y with
    | nil => exact h
    | cons c y => exact fun hnone => h (searchFrom_cons_eq_none.mp hnone).1
  | cons c x ih =>
    intro hnone
    refine ih ?_ (searchFrom_cons_eq_none.mp hnone).2
    rw [List.getLast?_cons] at h
    cases hx : x.getLast? with
    | none => rwa [hx] at h
    | some e => rwa [hx] at h

/-- A text without a match stays as it is. -/
theorem subAll_eq_self (h : searchFrom find b cs = none) : subAll find b 0 cs = cs := by
  induction cs generalizing b with
  | nil => exact subAll_nil
  | cons c cs ih =>
    obtain ⟨hfind, hrest⟩ := searchFrom_cons_eq_none.mp h
    rw [subAll_pass hfind, ih hrest]

/-- **The first match**, and what stands in front of it stays. -/
theorem exists_first_match (htakes : TakesSome find) (h : searchFrom find b cs = some (new, rest)) :
    ∃ x w b', cs = x ++ (w ++ rest) ∧ find b' (w ++ rest) = some (new, rest) ∧
      subAll find b 0 cs = x ++ (new ++ subAll find w.getLast? 0 rest) := by
  induction cs generalizing b with
  | nil =>
    rw [show searchFrom find b [] = find b [] from rfl, htakes.find_nil] at h
    cases h
  | cons c cs ih =>
    rw [searchFrom_cons] at h
    cases hfind : find b (c :: cs) with
    | some m =>
      rw [hfind, Option.some_or, Option.some.injEq] at h
      obtain ⟨w, hsplit, hne⟩ := htakes b (c :: cs) new rest (hfind.trans (congrArg some h))
      rw [h, hsplit] at hfind
      exact ⟨[], w, b, hsplit, hfind, by rw [hsplit, subAll_hit hne hfind, List.nil_append]⟩
    | none =>
      rw [hfind, Option.none_or] at h
      obtain ⟨x, w, b', rfl, hmatch, hsub⟩ := ih h
      exact ⟨c :: x, w, b', rfl, hmatch, by rw [subAll_pass hfind, hsub, List.cons_append]⟩

/-! ## What the matches take -/

theorem dropped_pass (h : find b (c :: cs) = none) :
    dropped find b 0 (c :: cs) = false :: dropped find (some c) 0 cs := by
  rw [dropped, h]

theorem dropped_found {m : List α × List α} (h : find b (c :: cs) = some m) :
    dropped find b 0 (c :: cs) = true :: dropped find (some c) (cs.length - m.2.length) cs := by
  rw [dropped, h]

/-- **A symbol at which a match starts is taken**, by that match or by one that reaches over it. -/
theorem dropped_of_find {u v : List α} {skip : ℕ} (h : (find (u.getLast?.or b) (c :: v)).isSome = true) :
    (dropped find b skip (u ++ c :: v))[u.length]? = some true := by
  induction u generalizing b skip with
  | nil =>
    cases skip with
    | succ skip => rfl
    | zero =>
      obtain ⟨m, hm⟩ := Option.isSome_iff_exists.mp h
      rw [List.getLast?_nil, Option.none_or] at hm
      rw [List.nil_append, dropped_found hm]
      rfl
  | cons a u ih =>
    have hlast : (find (u.getLast?.or (some a)) (c :: v)).isSome = true := by
      rw [List.getLast?_cons] at h
      cases hu : u.getLast? with
      | none =>
        rw [hu] at h
        exact h
      | some e =>
        rw [hu] at h
        exact h
    cases skip with
    | succ skip => exact ih hlast
    | zero =>
      rw [List.cons_append]
      cases hfind : find b (a :: (u ++ c :: v)) with
      | none =>
        rw [dropped_pass hfind]
        exact ih hlast
      | some m =>
        rw [dropped_found hfind]
        exact ih hlast

/-- **Matches replaced by nothing**: what is left is the symbols that are not taken. -/
theorem subAll_eq_kept (hnew : ∀ b cs new rest, find b cs = some (new, rest) → new = []) {skip : ℕ} :
    subAll find b skip cs = ((cs.zip (dropped find b skip cs)).filter fun e => !e.2).map Prod.fst := by
  induction cs generalizing b skip with
  | nil => rw [subAll_nil, List.zip_nil_left, List.filter_nil, List.map_nil]
  | cons c cs ih =>
    cases skip with
    | succ skip => exact ih
    | zero =>
      cases hfind : find b (c :: cs) with
      | none =>
        rw [subAll_pass hfind, dropped_pass hfind, ih]
        rfl
      | some m =>
        rw [subAll_found hfind, dropped_found hfind, hnew b (c :: cs) m.1 m.2 hfind, List.nil_append]
        exact ih

/-! ## What the matches keep -/

theorem mem_subAll (htakes : TakesSome find) {a : α} (h : a ∈ subAll find b 0 cs) :
    a ∈ cs ∨ ∃ b' cs' new rest, find b' cs' = some (new, rest) ∧ a ∈ new := by
  refine @subAll_induction α find b cs htakes
    (fun b cs => a ∈ subAll find b 0 cs →
      a ∈ cs ∨ ∃ b' cs' new rest, find b' cs' = some (new, rest) ∧ a ∈ new) ?_ ?_ ?_ h
  · intro b ha
    rw [subAll_nil] at ha
    exact absurd ha List.not_mem_nil
  · intro b c cs hfind ih ha
    rw [subAll_pass hfind] at ha
    rcases List.mem_cons.mp ha with rfl | ha
    · exact .inl List.mem_cons_self
    · exact (ih ha).imp_left (List.mem_cons_of_mem _)
  · intro b w new rest hne hfind ih ha
    rw [subAll_hit hne hfind, List.mem_append] at ha
    rcases ha with ha | ha
    · exact .inr ⟨b, w ++ rest, new, rest, hfind, ha⟩
    · exact (ih ha).imp_left (List.mem_append_right _)

/-- Symbols that every match keeps are as many as before. -/
theorem countP_subAll (htakes : TakesSome find)
    (hkeep : ∀ b w new rest, find b (w ++ rest) = some (new, rest) → new.countP f = w.countP f) :
    (subAll find b 0 cs).countP f = cs.countP f := by
  refine @subAll_induction α find b cs htakes (fun b cs => (subAll find b 0 cs).countP f = cs.countP f)
    ?_ ?_ ?_
  · intro b
    rw [subAll_nil]
  · intro b c cs hfind ih
    rw [subAll_pass hfind, List.countP_cons, List.countP_cons, ih]
  · intro b w new rest hne hfind ih
    rw [subAll_hit hne hfind, List.countP_append, List.countP_append, ih, hkeep b w new rest hfind]

/-- **Symbols that every match loses**: there are no more of them, and no match where there are as many. -/
theorem eq_of_countP_subAll (htakes : TakesSome find)
    (hlose : ∀ b w new rest, find b (w ++ rest) = some (new, rest) → new.countP f < w.countP f) :
    (subAll find b 0 cs).countP f ≤ cs.countP f ∧
      ((subAll find b 0 cs).countP f = cs.countP f → searchFrom find b cs = none) := by
  refine @subAll_induction α find b cs htakes
    (fun b cs => (subAll find b 0 cs).countP f ≤ cs.countP f ∧
      ((subAll find b 0 cs).countP f = cs.countP f → searchFrom find b cs = none)) ?_ ?_ ?_
  · intro b
    rw [subAll_nil]
    exact ⟨Nat.le_refl _, fun _ => htakes.find_nil⟩
  · intro b c cs hfind ih
    rw [subAll_pass hfind, List.countP_cons, List.countP_cons]
    refine ⟨Nat.add_le_add_right ih.1 _, fun heq => ?_⟩
    exact searchFrom_cons_eq_none.mpr ⟨hfind, ih.2 (Nat.add_right_cancel heq)⟩
  · intro b w new rest hne hfind ih
    have hless := hlose b w new rest hfind
    rw [subAll_hit hne hfind, List.countP_append, List.countP_append]
    refine ⟨by omega, fun heq => ?_⟩
    have := ih.1
    omega

/-! ## Pieces -/

theorem countP_plain (hx : ∀ c ∈ x, p c = false) : x.countP p = 0 :=
  List.countP_eq_zero.mpr fun c hc => by rw [hx c hc]; exact Bool.false_ne_true

/-- The first symbol of a kind cuts a text in two. -/
theorem cut_induction (p : α → Bool) {P : List α → Prop} (hplain : ∀ x, (∀ c ∈ x, p c = false) → P x)
    (hcut : ∀ x q y, (∀ c ∈ x, p c = false) → p q = true → P y → P (x ++ q :: y)) (cs : List α) :
    P cs := by
  induction hn : cs.length using Nat.strongRecOn generalizing cs with
  | _ n ih =>
    have hplain' : ∀ c ∈ cs.takeWhile (fun c => !p c), p c = false := by
      intro c hc
      have hnot := List.mem_takeWhile_imp hc
      rwa [Bool.not_eq_true'] at hnot
    cases hdrop : cs.dropWhile (fun c => !p c) with
    | nil =>
      have hsplit := @List.takeWhile_append_dropWhile α (fun c => !p c) cs
      rw [hdrop, List.append_nil] at hsplit
      rw [← hsplit]
      exact hplain _ hplain'
    | cons q y =>
      have hq : p q = true := by
        have hne : cs.dropWhile (fun c => !p c) ≠ [] := hdrop ▸ List.cons_ne_nil q y
        simpa only [hdrop, List.head_cons, Bool.not_eq_false'] using List.head_dropWhile_not _ hne
      have hsplit : cs = cs.takeWhile (fun c => !p c) ++ q :: y := by
        rw [← hdrop, List.takeWhile_append_dropWhile]
      have hlength := congrArg List.length hsplit
      rw [List.length_append, List.length_cons] at hlength
      rw [hsplit]
      exact hcut _ q y hplain' hq (ih y.length (by omega) y rfl)

theorem splitOnP_plain_append (hx : ∀ c ∈ x, p c = false) :
    (x ++ cs).splitOnP p = (cs.splitOnP p).modifyHead (x ++ ·) := by
  induction x with
  | nil =>
    obtain ⟨e, es, hes⟩ := List.exists_cons_of_ne_nil (List.splitOnP_ne_nil p cs)
    rw [List.nil_append, hes, List.modifyHead_cons, List.nil_append]
  | cons c x ih =>
    obtain ⟨hc, hx⟩ := List.forall_mem_cons.mp hx
    obtain ⟨e, es, hes⟩ := List.exists_cons_of_ne_nil (List.splitOnP_ne_nil p cs)
    rw [List.cons_append, List.splitOnP_cons_eq_if_modifyHead, ih hx, hc, hes]
    rfl

/-- **Something put into a text** is put into one of its pieces. -/
theorem splitOnP_insert (p : α → Bool) (x y : List α) :
    ∃ A l r B, A.length = x.countP p ∧ ∀ m, (∀ c ∈ m, p c = false) →
      (x ++ (m ++ y)).splitOnP p = A ++ (l ++ (m ++ r)) :: B := by
  induction x using cut_induction p with
  | hplain x hx =>
    obtain ⟨r, B, hB⟩ := List.exists_cons_of_ne_nil (List.splitOnP_ne_nil p y)
    refine ⟨[], x, r, B, (countP_plain hx).symm, fun m hm => ?_⟩
    rw [splitOnP_plain_append hx, splitOnP_plain_append hm, hB]
    rfl
  | hcut x q x' hx hq ih =>
    obtain ⟨A, l, r, B, hA, hsplit⟩ := ih
    refine ⟨x :: A, l, r, B, ?_, fun m hm => ?_⟩
    · rw [List.countP_append, List.countP_cons_of_pos hq, countP_plain hx, List.length_cons, hA, Nat.zero_add]
    · rw [List.append_assoc, List.cons_append, List.splitOnP_append_cons_of_forall_mem hx q hq, hsplit m hm,
        List.cons_append]

/-- **Something put behind a text** is put behind its last piece. -/
theorem splitOnP_end (p : α → Bool) (x : List α) :
    ∃ A l, l <:+ x ∧ ∀ m, (∀ c ∈ m, p c = false) → (x ++ m).splitOnP p = A ++ [l ++ m] := by
  induction x using cut_induction p with
  | hplain x hx =>
    refine ⟨[], x, List.suffix_refl x, fun m hm => ?_⟩
    rw [splitOnP_plain_append hx, List.splitOnP_eq_singleton hm]
    rfl
  | hcut x q x' hx hq ih =>
    obtain ⟨A, l, hl, hsplit⟩ := ih
    refine ⟨x :: A, l, hl.trans ⟨x ++ [q], List.append_cons x q x' ▸ rfl⟩, fun m hm => ?_⟩
    rw [List.append_assoc, List.cons_append, List.splitOnP_append_cons_of_forall_mem hx q hq, hsplit m hm,
      List.cons_append]

/-- **The symbols `p` separate the matches**: none stands in a match or in what replaces it, and the
pattern does not look behind one. -/
structure Separates (p : α → Bool) (find : Finder α) : Prop where
  cut : ∀ b x q y, p q = true → find b (x ++ q :: y) = (find b x).map fun m => (m.1, m.2 ++ q :: y)
  behind : ∀ q cs, p q = true → find (some q) cs = find none cs
  new : ∀ b cs new rest, find b cs = some (new, rest) → ∀ c ∈ new, p c = false

theorem Separates.subAll_append_cons (hsep : Separates p find) (htakes : TakesSome find)
    (hq : p q = true) : subAll find b 0 (x ++ q :: y) = subAll find b 0 x ++ q :: subAll find none 0 y := by
  refine @subAll_induction α find b x htakes
    (fun b x => subAll find b 0 (x ++ q :: y) = subAll find b 0 x ++ q :: subAll find none 0 y) ?_ ?_ ?_
  · intro b
    have hhere : find b (q :: y) = none := by
      have hcut := hsep.cut b [] q y hq
      rwa [htakes.find_nil, Option.map_none, List.nil_append] at hcut
    have hbehind : subAll find (some q) 0 y = subAll find none 0 y :=
      subAll_congr fun cs => hsep.behind q cs hq
    rw [List.nil_append, subAll_nil, List.nil_append, subAll_pass hhere, hbehind]
  · intro b c cs hfind ih
    have hcut := hsep.cut b (c :: cs) q y hq
    rw [hfind, Option.map_none, List.cons_append] at hcut
    rw [List.cons_append, subAll_pass hcut, ih, subAll_pass hfind, List.cons_append]
  · intro b w new rest hne hfind ih
    have hcut := hsep.cut b (w ++ rest) q y hq
    rw [hfind, Option.map_some, List.append_assoc] at hcut
    rw [List.append_assoc, subAll_hit hne hcut, ih, subAll_hit hne hfind, List.append_assoc]

/-- **A text is replaced piece by piece.** -/
theorem splitOnP_subAll (hsep : Separates p find) (htakes : TakesSome find) (cs : List α) :
    (subAll find none 0 cs).splitOnP p = (cs.splitOnP p).map (subAll find none 0) := by
  have hplain : ∀ {x : List α}, (∀ c ∈ x, p c = false) → ∀ c ∈ subAll find none 0 x, p c = false := by
    intro x hx c hc
    obtain hc | ⟨b', cs', new, rest, hfind, hc⟩ := mem_subAll htakes hc
    · exact hx c hc
    · exact hsep.new b' cs' new rest hfind c hc
  induction cs using cut_induction p with
  | hplain x hx =>
    rw [List.splitOnP_eq_singleton hx, List.splitOnP_eq_singleton (hplain hx), List.map_singleton]
  | hcut x q y hx hq ih =>
    rw [hsep.subAll_append_cons htakes hq, List.splitOnP_append_cons_of_forall_mem (hplain hx) q hq,
      List.splitOnP_append_cons_of_forall_mem hx q hq, ih, List.map_cons]

/-! ## A symbol that no match takes -/

/-- **A pattern that a symbol ends**: no match starts at it, a match that ends before it does not depend on
what follows, and where nothing is found with it, nothing is found without. -/
structure EndsBefore (q : α) (find : Finder α) : Prop where
  notAt : ∀ b cs, find b (q :: cs) = none
  inside : ∀ b x y new r, find b (x ++ q :: y) = some (new, r ++ q :: y) → find b x = some (new, r)
  before : ∀ b x y, find b (x ++ q :: y) = none → find b x = none

theorem dropped_succ {skip : ℕ} :
    dropped find b (skip + 1) (c :: cs) = true :: dropped find (some c) skip cs := rfl

theorem dropped_skip : dropped find b w.length (w ++ rest) =
    List.replicate w.length true ++ dropped find (w.getLast?.or b) 0 rest := by
  induction w generalizing b with
  | nil => rfl
  | cons c w ih =>
    rw [List.length_cons, List.cons_append, dropped_succ, ih, List.getLast?_cons, List.replicate_succ]
    cases w.getLast? <;> rfl

/-- The symbols of a match are taken. -/
theorem dropped_hit (hne : w ≠ []) (h : find b (w ++ rest) = some (new, rest)) :
    dropped find b 0 (w ++ rest) = List.replicate w.length true ++ dropped find w.getLast? 0 rest := by
  cases w with
  | nil => exact absurd rfl hne
  | cons c w =>
    have hskip : (w ++ rest).length - rest.length = w.length := by
      rw [List.length_append, Nat.add_sub_cancel]
    rw [List.cons_append] at h ⊢
    rw [dropped_found h]
    simp only [hskip, dropped_skip, List.getLast?_cons, List.length_cons, List.replicate_succ]
    cases w.getLast? <;> rfl

/-- What stands behind a match. -/
theorem dropped_behind_hit (hne : w ≠ []) (h : find b (w ++ (x ++ y)) = some (new, x ++ y)) :
    (dropped find b 0 (w ++ x ++ y))[(w ++ x).length]? = (dropped find w.getLast? 0 (x ++ y))[x.length]? := by
  rw [List.append_assoc, dropped_hit hne h, List.length_append,
    List.getElem?_append_right (by rw [List.length_replicate]; exact Nat.le_add_right _ _), List.length_replicate,
    Nat.add_sub_cancel_left]

theorem length_dropped {skip : ℕ} : (dropped find b skip cs).length = cs.length := by
  induction cs generalizing b skip with
  | nil =>
    cases skip <;> rfl
  | cons c cs ih =>
    cases skip with
    | succ skip => rw [dropped_succ, List.length_cons, ih, List.length_cons]
    | zero =>
      cases hfind : find b (c :: cs) with
      | none => rw [dropped_pass hfind, List.length_cons, ih, List.length_cons]
      | some m => rw [dropped_found hfind, List.length_cons, ih, List.length_cons]

/-- **Around a symbol that no match takes** the text is replaced in two parts. -/
theorem EndsBefore.split (hends : EndsBefore q find) (htakes : TakesSome find)
    (h : (dropped find b 0 (x ++ q :: y))[x.length]? = some false) :
    subAll find b 0 (x ++ q :: y) = subAll find b 0 x ++ q :: subAll find (some q) 0 y ∧
      dropped find b 0 (x ++ q :: y) = dropped find b 0 x ++ false :: dropped find (some q) 0 y := by
  -- on the length of what stands in front: a match in it is passed in one step
  induction hn : x.length using Nat.strongRecOn generalizing b x with
  | _ n ih =>
    cases x with
    | nil => exact ⟨subAll_pass (hends.notAt b y), dropped_pass (hends.notAt b y)⟩
    | cons c x =>
      rw [List.length_cons] at hn
      cases hfind : find b (c :: x ++ q :: y) with
      | none =>
        have hx := hends.before b (c :: x) y hfind
        rw [List.cons_append] at h hfind ⊢
        rw [dropped_pass hfind, List.length_cons, List.getElem?_cons_succ] at h
        obtain ⟨hsub, hdropped⟩ := ih x.length (by omega) h rfl
        rw [subAll_pass hfind, subAll_pass hx, dropped_pass hfind, dropped_pass hx, hsub, hdropped]
        exact ⟨rfl, rfl⟩
      | some m =>
        obtain ⟨w, hsplit, hne⟩ := htakes b _ m.1 m.2 hfind
        have hinside : ∃ r, c :: x = w ++ r ∧ m.2 = r ++ q :: y := by
          rcases List.append_eq_append_iff.mp hsplit with ⟨a, hw, hq⟩ | ⟨r, hx, hrest⟩
          · cases a with
            | nil => exact ⟨[], by rw [hw, List.append_nil, List.append_nil], hq.symm⟩
            | cons d a =>
              -- the match would take the symbol
              rw [hsplit] at h hfind
              have hlt : (c :: x).length < w.length := by
                rw [hw, List.length_append]
                simp only [List.length_cons]
                omega
              rw [dropped_hit hne hfind, List.getElem?_append_left (by rwa [List.length_replicate]),
                List.getElem?_replicate, if_pos hlt] at h
              cases h
          · exact ⟨r, hx, hrest⟩
        obtain ⟨r, hx, hrest⟩ := hinside
        have hshort : find b (w ++ r) = some (m.1, r) := by
          rw [← hx]
          exact hends.inside b (c :: x) y m.1 r (by rw [hfind, ← hrest])
        have hlong : find b (w ++ (r ++ q :: y)) = some (m.1, r ++ q :: y) := by
          rw [← List.append_assoc, ← hx, hfind, ← hrest]
        have hlength := congrArg List.length hx
        have hpos := List.length_pos_iff.mpr hne
        rw [List.length_cons, List.length_append] at hlength
        rw [hx, dropped_behind_hit hne hlong] at h
        obtain ⟨hsub, hdropped⟩ := ih r.length (by omega) h rfl
        rw [hx, List.append_assoc, subAll_hit hne hlong, subAll_hit hne hshort, dropped_hit hne hlong,
          dropped_hit hne hshort, hsub, hdropped, List.append_assoc, List.append_assoc]
        exact ⟨rfl, rfl⟩

end LocalSqlAgent
