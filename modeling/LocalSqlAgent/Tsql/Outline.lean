import LocalSqlAgent.Tsql.Lexing

/-! # The outline of a statement

What makes a text a T-SQL statement, as far as its tokens and parentheses show it: how the `TOP` clause
of a select is written and that it does not go with `OFFSET`, that an `ORDER BY` inside parentheses goes
with `TOP`, `OFFSET` or `FOR`, and what stands outside every parenthesis only.

* **`Legal`**: what holds of the tokens of a statement (`Statement`), or of a query inside parentheses
  (`DerivedQuery`).
* **`Capped`**: the outermost query returns a fixed number of rows at most.
* **`legal_splice_iff`**, **`legal_wrap_iff`**: what keeps a text legal when a `TOP` is put into its
  outermost select, or a select around it. -/

namespace LocalSqlAgent

namespace Tsql

/-! ## Clauses -/

/-- `UNION`, `INTERSECT` and `EXCEPT`. -/
def Token.isSetOp : Token → Bool
  | .keyword .union | .keyword .intersect | .keyword .except => true
  | _ => false

/-- What stands outside every parenthesis only. -/
def Token.outermostOnly : Token → Bool
  | .semicolon | .keyword .option => true
  | _ => false

/-- A token an expression ends with. -/
def Token.endsExpression : Token → Bool
  | .name | .number | .quoted | .closeParen => true
  | _ => false

/-- The tokens of one select among those behind its `SELECT`. -/
def branch (ts : List Token) : List Token := ts.takeWhile (· ≠ .keyword .select)

/-- What follows `ALL` or `DISTINCT` behind a `SELECT`. -/
def skipQuantifier : List Token → List Token
  | .keyword .all :: ts => ts
  | .keyword .distinct :: ts => ts
  | ts => ts

/-- What follows a `TOP` and its quantity. What the parentheses hold is deeper. -/
def afterTop : List Token → Option (List Token)
  | .keyword .top :: .number :: ts => some ts
  | .keyword .top :: .openParen :: .closeParen :: ts => some ts
  | _ => none

/-- **A plain `TOP k`**, neither a percentage nor with ties. -/
def plainTop : List Token → Bool
  | .keyword .top :: .number :: ts =>
    ts.head? ≠ some (.keyword .percent) && ts.head? ≠ some (.keyword .withWord)
  | _ => false

/-- What follows an `OFFSET`, which stands behind an order expression: behind a comma, an operator or
`BY` the word is a column. -/
def behindOffset : List Token → Option (List Token)
  | [] => none
  | [_] => none
  | t :: t' :: ts =>
    if t.endsExpression && t' = .keyword .offset then some ts else behindOffset (t' :: ts)

/-- What follows the `OFFSET` of an `ORDER BY`, when there is one. -/
def offsetClause (ts : List Token) : Option (List Token) :=
  behindOffset (ts.dropWhile (· ≠ .keyword .order))

/-- An `OFFSET` with a `FETCH`. -/
def offsetFetch (ts : List Token) : Bool := (offsetClause ts).any (.keyword .fetch ∈ ·)

/-- One `TOP` clause, behind `SELECT` or its `ALL` or `DISTINCT`. -/
def topInPlace (ts : List Token) : Bool :=
  match afterTop (skipQuantifier ts) with
  | some rest => .keyword .top ∉ branch rest && rest.head? ≠ some (.keyword .all) &&
      rest.head? ≠ some (.keyword .distinct)
  | none => false

/-- **The `TOP` of a select**: in its place and only once, and in no query with `OFFSET`. -/
def TopLegal (ts : List Token) : Prop :=
  .keyword .top ∈ branch ts → topInPlace ts = true ∧ offsetClause ts = none

instance (ts : List Token) : Decidable (TopLegal ts) :=
  inferInstanceAs (Decidable (_ → _ ∧ _))

/-- **An `ORDER BY` inside parentheses** goes with `TOP`, `OFFSET` or `FOR`. -/
def OrderLegal (ts : List Token) : Prop :=
  .keyword .order ∈ ts →
    .keyword .top ∈ branch ts ∨ (offsetClause ts).isSome ∨ .keyword .forWord ∈ ts

instance (ts : List Token) : Decidable (OrderLegal ts) :=
  inferInstanceAs (Decidable (_ → _ ∨ _ ∨ _))

/-! ## Statements -/

/-- The tokens of the same parenthesis behind a place at depth `d`. -/
def scope (d : ℤ) (ts : List Placed) : List Token :=
  ((ts.takeWhile (d ≤ ·.depth)).filter (·.depth = d)).map Placed.token

/-- The tokens outside every parenthesis. -/
def outline (ts : List Placed) : List Token := (ts.filter (·.depth = 0)).map Placed.token

/-- Every select is legal; those deeper than `outer` are inside parentheses. -/
def SelectsLegal (outer : ℤ) : List Placed → Prop
  | [] => True
  | t :: ts =>
    (t.token = .keyword .select →
      TopLegal (scope t.depth ts) ∧ (outer < t.depth → OrderLegal (scope t.depth ts))) ∧
    SelectsLegal outer ts

instance decidableSelectsLegal (outer : ℤ) : (ts : List Placed) → Decidable (SelectsLegal outer ts)
  | [] => inferInstanceAs (Decidable True)
  | t :: ts =>
    have := decidableSelectsLegal outer ts
    inferInstanceAs (Decidable ((t.token = .keyword .select →
      TopLegal (scope t.depth ts) ∧ (outer < t.depth → OrderLegal (scope t.depth ts))) ∧ _))

/-- **A legal text**: its parentheses match, nothing is left open, and its selects are legal. -/
structure Legal (outer : ℤ) (ts : List Placed) : Prop where
  /-- No parenthesis closes what was not opened, nothing is left open at the end, and what stands
  outside every parenthesis only does. -/
  placed : ∀ t ∈ ts, 0 ≤ t.depth ∧ t.token ≠ .unfinished ∧
    (t.token.outermostOnly = true → t.depth ≤ outer)
  /-- Every parenthesis is closed. -/
  balanced : opened ts = 0
  /-- Every select is legal. -/
  selects : SelectsLegal outer ts

theorem legal_iff {outer : ℤ} {ts : List Placed} : Legal outer ts ↔
    (∀ t ∈ ts, 0 ≤ t.depth ∧ t.token ≠ .unfinished ∧
      (t.token.outermostOnly = true → t.depth ≤ outer)) ∧
    opened ts = 0 ∧ SelectsLegal outer ts :=
  ⟨fun h => ⟨h.placed, h.balanced, h.selects⟩, fun h => ⟨h.1, h.2.1, h.2.2⟩⟩

instance (outer : ℤ) (ts : List Placed) : Decidable (Legal outer ts) :=
  decidable_of_iff _ legal_iff.symm

/-- **The tokens of a statement.** -/
abbrev Statement (ts : List Placed) : Prop := Legal 0 ts

/-- The tokens of a query that stands inside parentheses. -/
abbrev DerivedQuery (ts : List Placed) : Prop := Legal (-1) ts

/-- What follows the first `SELECT`. -/
def behindSelect (ts : List Token) : Option (List Token) :=
  match ts.dropWhile (· ≠ .keyword .select) with
  | [] => none
  | _ :: rest => some rest

/-- **The outermost query returns a fixed number of rows at most**: it is one select with a plain `TOP`,
or it has an `OFFSET` with a `FETCH`. -/
def Capped (ts : List Token) : Prop :=
  ∃ rest ∈ behindSelect ts,
    (plainTop (skipQuantifier rest) = true ∧ .keyword .select ∉ rest ∧
      ∀ t ∈ ts, t.isSetOp = false) ∨ offsetFetch rest = true

instance (ts : List Token) : Decidable (Capped ts) :=
  inferInstanceAs (Decidable (∃ rest ∈ behindSelect ts, _ ∨ _))

/-! ## Scopes -/

variable {ts : List Token} {A B C L : List Placed} {c t : Placed} {d outer : ℤ}

/-- The outermost tokens of a text whose parentheses match are one scope. -/
theorem scope_zero (h : ∀ t ∈ A, 0 ≤ t.depth) : scope 0 A = outline A := by
  rw [scope, outline, List.takeWhile_eq_self_iff.mpr fun t ht => decide_eq_true (h t ht)]

/-- A scope ends where its parenthesis closes. -/
theorem scope_append (hc : c.depth < d) : scope d (A ++ c :: C) = scope d A := by
  have hstop : ¬ decide (d ≤ c.depth) = true := by rw [decide_eq_true_eq]; omega
  rw [scope, scope, List.takeWhile_append]
  split
  · rename_i hlen
    rw [List.takeWhile_cons_of_neg (p := fun t : Placed => decide (d ≤ t.depth)) hstop,
      (List.takeWhile_prefix _).eq_of_length hlen, List.append_nil]
  · rfl

/-- A scope one parenthesis deeper has the same tokens. -/
theorem scope_deeper : scope (d + 1) (A.map Placed.deeper) = scope d A := by
  have hle : (fun t : Placed => decide (d + 1 ≤ t.depth)) ∘ Placed.deeper =
      fun t : Placed => decide (d ≤ t.depth) := by
    funext t
    simp [Placed.deeper]
  have heq : (fun t : Placed => decide (t.depth = d + 1)) ∘ Placed.deeper =
      fun t : Placed => decide (t.depth = d) := by
    funext t
    simp [Placed.deeper]
  have htoken : Placed.token ∘ Placed.deeper = Placed.token := rfl
  rw [scope, scope, List.takeWhile_map, List.filter_map, List.map_map, hle, heq, htoken]

theorem outline_append : outline (A ++ B) = outline A ++ outline B := by
  rw [outline, List.filter_append, List.map_append]
  rfl

theorem outline_cons_zero {k : Token} : outline (⟨0, k⟩ :: A) = k :: outline A := rfl

theorem outline_map {q : List Token} : outline (q.map (⟨0, ·⟩)) = q := by
  induction q with
  | nil => rfl
  | cons k q ih => rw [List.map_cons, outline_cons_zero, ih]

theorem mem_outline {k : Token} : k ∈ outline A ↔ ⟨0, k⟩ ∈ A := by
  rw [outline, List.mem_map]
  constructor
  · rintro ⟨⟨d, k⟩, ht, rfl⟩
    obtain ⟨ht, hd⟩ := List.mem_filter.mp ht
    obtain rfl : d = 0 := by simpa using hd
    exact ht
  · exact fun h => ⟨_, List.mem_filter.mpr ⟨h, rfl⟩, rfl⟩

/-- No token of a text inside a parenthesis is an outermost one. -/
theorem outline_deeper (h : ∀ t ∈ A, 0 ≤ t.depth) : outline (A.map Placed.deeper) = [] := by
  rw [outline, List.filter_eq_nil_iff.mpr, List.map_nil]
  rintro t ht
  obtain ⟨t₀, ht₀, rfl⟩ := List.mem_map.mp ht
  have hd := h t₀ ht₀
  have hdeep : t₀.deeper.depth ≠ 0 := by
    show t₀.depth + 1 ≠ 0
    omega
  simpa using hdeep

/-! ## The selects of a text -/

/-- **The selects before an outermost token** are legal by themselves when none of them is outermost. -/
theorem selectsLegal_append_iff (hA : ∀ t ∈ A, 0 ≤ t.depth) (hno : ⟨0, .keyword .select⟩ ∉ A)
    (hc : c.depth = 0) :
    SelectsLegal outer (A ++ c :: C) ↔ SelectsLegal outer A ∧ SelectsLegal outer (c :: C) := by
  induction A with
  | nil => exact (and_iff_right trivial).symm
  | cons t A ih =>
    obtain ⟨ht, hA⟩ := List.forall_mem_cons.mp hA
    obtain ⟨hne, hno⟩ := not_or.mp (fun h => hno (List.mem_cons.mpr h))
    rw [List.cons_append, SelectsLegal, SelectsLegal, ih hA hno, and_assoc]
    refine and_congr_left fun _ => forall_congr' fun hselect => ?_
    have hd : c.depth < t.depth := by
      have : t.depth ≠ 0 := by
        rintro hzero
        obtain ⟨d, k⟩ := t
        exact hne (by rw [show d = 0 from hzero, show k = _ from hselect])
      omega
    rw [scope_append hd]

/-- **A text inside a parenthesis** has the selects it has outside, with one more around them. -/
theorem selectsLegal_deeper_iff (hL : ∀ t ∈ L, 0 ≤ t.depth) (hc : c.depth = 0) :
    SelectsLegal 0 (L.map Placed.deeper ++ c :: C) ↔
      SelectsLegal (-1) L ∧ SelectsLegal 0 (c :: C) := by
  induction L with
  | nil => exact (and_iff_right trivial).symm
  | cons t L ih =>
    obtain ⟨ht, hL⟩ := List.forall_mem_cons.mp hL
    have hscope : scope (t.depth + 1) (L.map Placed.deeper ++ c :: C) = scope t.depth L := by
      rw [scope_append (by omega), scope_deeper]
    rw [List.map_cons, List.cons_append, SelectsLegal, SelectsLegal, ih hL, and_assoc,
      show t.deeper.depth = t.depth + 1 from rfl, show t.deeper.token = t.token from rfl, hscope]
    refine and_congr_left fun _ => forall_congr' fun _ => and_congr_right fun _ => ?_
    exact imp_congr (by omega) Iff.rfl

/-- Tokens that are no selects say nothing about the selects behind them. -/
theorem selectsLegal_others_iff (hA : ∀ t ∈ A, t.token ≠ .keyword .select) :
    SelectsLegal outer (A ++ B) ↔ SelectsLegal outer B := by
  induction A with
  | nil => exact Iff.rfl
  | cons t A ih =>
    obtain ⟨ht, hA⟩ := List.forall_mem_cons.mp hA
    rw [List.cons_append, SelectsLegal, ih hA]
    exact and_iff_right fun h => absurd h ht

/-- An outermost select of a text. -/
theorem selectsLegal_select_iff (hC : ∀ t ∈ C, 0 ≤ t.depth) :
    SelectsLegal 0 (⟨0, .keyword .select⟩ :: C) ↔ TopLegal (outline C) ∧ SelectsLegal 0 C := by
  rw [SelectsLegal, scope_zero hC]
  exact and_congr_left fun _ => ⟨fun h => (h rfl).1, fun h _ => ⟨h, fun hlt => absurd hlt (lt_irrefl _)⟩⟩

/-- The first outermost select of a statement has a legal `TOP`. -/
theorem topLegal_of_statement (h : Statement (A ++ ⟨0, .keyword .select⟩ :: C))
    (hno : ⟨0, .keyword .select⟩ ∉ A) : TopLegal (outline C) := by
  obtain ⟨hplacedA, hplacedC⟩ := List.forall_mem_append.mp h.placed
  have hselects := h.selects
  rw [selectsLegal_append_iff (fun t ht => (hplacedA t ht).1) hno rfl,
    selectsLegal_select_iff fun t ht => (hplacedC t (List.mem_cons_of_mem _ ht)).1] at hselects
  exact hselects.2.1

/-! ## A `TOP` in the outermost select -/

/-- What a cap is made of: `DISTINCT`, `TOP` and the number, outside every parenthesis. -/
def Spliced (t : Placed) : Prop :=
  t = ⟨0, .keyword .distinct⟩ ∨ t = ⟨0, .keyword .top⟩ ∨ t = ⟨0, .number⟩

variable {X I : List Placed}

theorem Spliced.token_ne (h : Spliced t) : t.token ≠ .keyword .select := by
  rcases h with rfl | rfl | rfl <;> decide

/-- A cap opens and closes no parenthesis. -/
theorem opened_spliced (hX : ∀ t ∈ X, Spliced t) : opened X = 0 := by
  induction X with
  | nil => rfl
  | cons t X ih =>
    obtain ⟨ht, hX⟩ := List.forall_mem_cons.mp hX
    have ht0 : opened [t] = 0 := by
      rcases ht with rfl | rfl | rfl <;> rfl
    rw [← List.singleton_append, opened_append, ht0, ih hX, add_zero]

/-- **A cap keeps a statement legal** exactly when the outermost select may have it. -/
theorem legal_splice_iff (h : Statement (A ++ ⟨0, .keyword .select⟩ :: (X ++ B)))
    (hno : ⟨0, .keyword .select⟩ ∉ A) (hX : ∀ t ∈ X, Spliced t) (hI : ∀ t ∈ I, Spliced t) :
    Statement (A ++ ⟨0, .keyword .select⟩ :: (X ++ (I ++ B))) ↔
      TopLegal (outline (X ++ (I ++ B))) := by
  have hspliced : ∀ t, Spliced t → 0 ≤ t.depth ∧ t.token ≠ .unfinished ∧
      (t.token.outermostOnly = true → t.depth ≤ 0) := by
    rintro t (rfl | rfl | rfl) <;> exact ⟨le_rfl, nofun, nofun⟩
  have hplaced : ∀ t ∈ A ++ ⟨0, .keyword .select⟩ :: (X ++ (I ++ B)), 0 ≤ t.depth ∧
      t.token ≠ .unfinished ∧ (t.token.outermostOnly = true → t.depth ≤ 0) := by
    intro t ht
    by_cases hold : t ∈ A ++ ⟨0, .keyword .select⟩ :: (X ++ B)
    · exact h.placed t hold
    · refine hspliced t (hI t ?_)
      simp only [List.mem_append, List.mem_cons] at ht hold
      tauto
  have hbalanced := h.balanced
  have hselects := h.selects
  have hdepth := fun t ht => (hplaced t ht).1
  simp only [List.mem_append, List.mem_cons, or_imp, forall_and, forall_eq] at hdepth
  obtain ⟨hA, -, hX0, hI0, hB0⟩ := hdepth
  have hXB : ∀ t ∈ X ++ B, 0 ≤ t.depth := by
    simp only [List.mem_append]
    exact fun t ht => ht.elim (hX0 t) (hB0 t)
  have hXIB : ∀ t ∈ X ++ (I ++ B), 0 ≤ t.depth := by
    simp only [List.mem_append]
    exact fun t ht => ht.elim (hX0 t) fun ht => ht.elim (hI0 t) (hB0 t)
  rw [selectsLegal_append_iff hA hno rfl, selectsLegal_select_iff hXB,
    selectsLegal_others_iff fun t ht => (hX t ht).token_ne] at hselects
  rw [Statement, legal_iff, and_iff_right hplaced, selectsLegal_append_iff hA hno rfl,
    selectsLegal_select_iff hXIB, selectsLegal_others_iff fun t ht => (hX t ht).token_ne,
    selectsLegal_others_iff fun t ht => (hI t ht).token_ne, and_iff_right hselects.1, and_iff_left hselects.2.2, and_iff_right]
  rw [← List.singleton_append, opened_append, opened_append, opened_append] at hbalanced ⊢
  rw [opened_append, opened_spliced hI, zero_add]
  exact hbalanced

/-! ## A select around the statement -/

/-- The tokens of `SELECT TOP k * FROM (`. -/
def wrapHead : List Placed :=
  [⟨0, .keyword .select⟩, ⟨0, .keyword .top⟩, ⟨0, .number⟩, ⟨0, .symbol⟩, ⟨0, .name⟩, ⟨0, .openParen⟩]

/-- The tokens of `) AS` and a name. -/
def wrapTail : List Placed := [⟨0, .closeParen⟩, ⟨0, .name⟩, ⟨0, .name⟩]

theorem opened_deeper : opened (L.map Placed.deeper) = opened L := by
  rw [opened, List.countP_map, List.countP_map]
  rfl

/-- **A select around a query keeps a statement legal** exactly when the query is legal inside
parentheses. -/
theorem legal_wrap_iff (h : Statement (A ++ L)) (hno : ⟨0, .keyword .select⟩ ∉ A)
    (hA : opened A = 0)
    (hL : ∃ B, L = ⟨0, .keyword .select⟩ :: B) :
    Statement (A ++ (wrapHead ++ (L.map Placed.deeper ++ wrapTail))) ↔ DerivedQuery L := by
  obtain ⟨B, rfl⟩ := hL
  obtain ⟨hplacedA, hplacedL⟩ := List.forall_mem_append.mp h.placed
  have hA0 := fun t ht => (hplacedA t ht).1
  have hL0 := fun t ht => (hplacedL t ht).1
  have hbalanced := h.balanced
  rw [opened_append, hA, zero_add] at hbalanced
  have hselects := h.selects
  rw [selectsLegal_append_iff hA0 hno rfl] at hselects
  have hout : ∀ t ∈ wrapHead.tail ++ ((⟨0, .keyword .select⟩ :: B).map Placed.deeper ++ wrapTail),
      0 ≤ t.depth := by
    intro t ht
    rcases List.mem_append.mp ht with ht | ht
    · exact (show ∀ t ∈ wrapHead.tail, 0 ≤ t.depth by decide) t ht
    · rcases List.mem_append.mp ht with ht | ht
      · obtain ⟨t₀, ht₀, rfl⟩ := List.mem_map.mp ht
        have hd := hL0 t₀ ht₀
        show 0 ≤ t₀.depth + 1
        omega
      · exact (show ∀ t ∈ wrapTail, 0 ≤ t.depth by decide) t ht
  -- the select around has its `TOP` in place, and the tokens around the query hold no other select
  have htop : TopLegal (outline (wrapHead.tail ++
      ((⟨0, .keyword .select⟩ :: B).map Placed.deeper ++ wrapTail))) := by
    rw [outline_append, outline_append, outline_deeper hL0]
    decide
  have hsel : SelectsLegal 0 (A ++ (wrapHead ++
      ((⟨0, .keyword .select⟩ :: B).map Placed.deeper ++ wrapTail))) ↔
      SelectsLegal (-1) (⟨0, .keyword .select⟩ :: B) := by
    rw [show wrapHead = ⟨0, .keyword .select⟩ :: wrapHead.tail from rfl, List.cons_append,
      selectsLegal_append_iff hA0 hno rfl, and_iff_right hselects.1, selectsLegal_select_iff hout,
      and_iff_right htop]
    rw [selectsLegal_others_iff (show ∀ t ∈ wrapHead.tail, t.token ≠ .keyword .select by decide),
      show wrapTail = ⟨0, .closeParen⟩ :: wrapTail.tail from rfl, selectsLegal_deeper_iff hL0 rfl]
    exact and_iff_left (by decide)
  rw [Statement, DerivedQuery, legal_iff, legal_iff, hsel]
  refine and_congr ?_ (and_congr_left fun _ => ?_)
  · constructor
    · intro hall t ht
      have hdeep := hall t.deeper (List.mem_append_right _ (List.mem_append_right _
        (List.mem_append_left _ (List.mem_map_of_mem ht))))
      refine ⟨(hplacedL t ht).1, (hplacedL t ht).2.1, fun honly => ?_⟩
      have hd : t.depth + 1 ≤ 0 := hdeep.2.2 honly
      omega
    · intro hall
      refine List.forall_mem_append.mpr ⟨hplacedA, List.forall_mem_append.mpr ⟨by decide,
        List.forall_mem_append.mpr ⟨fun t ht => ?_, by decide⟩⟩⟩
      obtain ⟨t₀, ht₀, rfl⟩ := List.mem_map.mp ht
      obtain ⟨hd, hopen, honly⟩ := hall t₀ ht₀
      refine ⟨?_, hopen, fun hout => ?_⟩
      · show 0 ≤ t₀.depth + 1
        omega
      · have hneg := honly hout
        show t₀.depth + 1 ≤ 0
        omega
  · rw [opened_append, opened_append, opened_append, opened_deeper, hA, hbalanced]
    exact iff_of_true rfl rfl

/-- A select around the statement that nothing closes. -/
theorem not_legal_unclosed (h : opened (A ++ L) = 0) :
    ¬ Statement (A ++ (wrapHead ++ L.map Placed.deeper)) := by
  intro hout
  have hbalanced := hout.balanced
  rw [opened_append, opened_append, opened_deeper, show opened wrapHead = 1 from rfl] at hbalanced
  rw [opened_append] at h
  omega

/-! ## The cap -/

variable {a : List Token}

/-- **The cap of a statement** is read behind its first select. -/
theorem capped_iff (ha : .keyword .select ∉ a) :
    Capped (a ++ .keyword .select :: ts) ↔
      (plainTop (skipQuantifier ts) = true ∧ .keyword .select ∉ ts ∧
        ∀ t ∈ a ++ ts, t.isSetOp = false) ∨ offsetFetch ts = true := by
  have hdrop : (a ++ .keyword .select :: ts).dropWhile (· ≠ .keyword .select) =
      .keyword .select :: ts := by
    rw [List.dropWhile_append_of_pos fun t ht => decide_eq_true (ne_of_mem_of_not_mem ht ha)]
    rfl
  have hbehind : behindSelect (a ++ .keyword .select :: ts) = some ts := by
    rw [behindSelect, hdrop]
  have hops : (∀ t ∈ a ++ .keyword .select :: ts, t.isSetOp = false) ↔
      ∀ t ∈ a ++ ts, t.isSetOp = false := by
    simp only [List.mem_append, List.mem_cons]
    refine ⟨fun h t ht => h t (by tauto), fun h t ht => ?_⟩
    rcases ht with ht | rfl | ht
    · exact h t (.inl ht)
    · rfl
    · exact h t (.inr ht)
  simp only [Capped, hbehind, Option.mem_some_iff, exists_eq_left', hops]

/-- Without an `OFFSET` only a `TOP` caps. -/
theorem offsetFetch_eq_false (h : offsetClause ts = none) : offsetFetch ts = false := by
  rw [offsetFetch, h]
  rfl

/-- **A select that can take a `TOP`**: it has none, no `ALL`, no further `DISTINCT`, nothing that would
be read as part of the `TOP`, and no `OFFSET`. -/
def TakesTop (ts : List Token) : Prop :=
  (∀ k ∈ [Keyword.top, .all, .distinct, .percent, .withWord], ts.head? ≠ some (.keyword k)) ∧
    offsetClause ts = none

instance (ts : List Token) : Decidable (TakesTop ts) :=
  inferInstanceAs (Decidable (_ ∧ _))

/-- A `TOP` in its place stands behind the `SELECT` or its quantifier. -/
theorem head_of_afterTop {rest : List Token} (h : afterTop ts = some rest) :
    ts.head? = some (.keyword .top) := by
  unfold afterTop at h
  split at h
  · rfl
  · rfl
  · cases h

theorem head_of_topInPlace (h : topInPlace ts = true) :
    ∃ k ∈ [Keyword.top, .all, .distinct], ts.head? = some (.keyword k) := by
  unfold topInPlace at h
  split at h
  · rename_i rest hafter
    have hhead := head_of_afterTop hafter
    unfold skipQuantifier at hhead
    split at hhead
    · exact ⟨.all, by decide, rfl⟩
    · exact ⟨.distinct, by decide, rfl⟩
    · exact ⟨.top, by decide, hhead⟩
  · cases h

/-- What stands between `SELECT` and its `TOP`. -/
def IsQuantifier (q : List Token) : Prop := q = [] ∨ q = [.keyword .distinct]

/-- Where a `TOP` of a legal select is. -/
theorem head_of_topLegal {q : List Token} (hq : IsQuantifier q) (h : TopLegal (q ++ ts))
    (hmem : .keyword .top ∈ branch ts) :
    ∃ k ∈ [Keyword.top, .all, .distinct], ts.head? = some (.keyword k) := by
  rcases hq with rfl | rfl
  · exact head_of_topInPlace (h hmem).1
  · have hplace := (h (List.mem_cons_of_mem _ hmem)).1
    rw [topInPlace, show skipQuantifier ([.keyword .distinct] ++ ts) = ts from rfl] at hplace
    split at hplace
    · rename_i rest hafter
      exact ⟨.top, by decide, head_of_afterTop hafter⟩
    · cases hplace

/-- A select with the `TOP` put in has a legal one. -/
theorem topLegal_top_iff {q : List Token} (hq : IsQuantifier q) :
    TopLegal (q ++ .keyword .top :: .number :: ts) ↔
      (.keyword .top ∉ branch ts ∧ ts.head? ≠ some (.keyword .all) ∧
        ts.head? ≠ some (.keyword .distinct)) ∧ offsetClause ts = none := by
  rcases hq with rfl | rfl
  · rw [TopLegal, imp_iff_right (show Token.keyword .top ∈ branch _ from List.mem_cons_self)]
    simp [topInPlace, skipQuantifier, afterTop, and_assoc, offsetClause]
  · rw [TopLegal, imp_iff_right (show Token.keyword .top ∈ branch _ from
      List.mem_cons_of_mem _ List.mem_cons_self)]
    simp [topInPlace, skipQuantifier, afterTop, and_assoc, offsetClause]

/-- **When a legal select takes the `TOP`.** -/
theorem takesTop_iff {q : List Token} (hq : IsQuantifier q) (h : TopLegal (q ++ ts)) :
    TopLegal (q ++ .keyword .top :: .number :: ts) ∧
        plainTop (skipQuantifier (q ++ .keyword .top :: .number :: ts)) = true ↔ TakesTop ts := by
  have hmem : ts.head? = some (.keyword .top) → .keyword .top ∈ branch ts := by
    cases ts with
    | nil => exact nofun
    | cons t ts =>
      rintro ⟨⟩
      exact List.mem_cons_self
  have hhead := head_of_topLegal hq h
  have hplain : plainTop (skipQuantifier (q ++ .keyword .top :: .number :: ts)) = true ↔
      ts.head? ≠ some (.keyword .percent) ∧ ts.head? ≠ some (.keyword .withWord) := by
    rcases hq with rfl | rfl <;> simp [skipQuantifier, plainTop]
  rw [topLegal_top_iff hq, hplain, TakesTop]
  simp only [List.mem_cons, List.not_mem_nil, or_false, forall_eq_or_imp, forall_eq, exists_eq_or_imp,
    exists_eq_left] at hhead ⊢
  tauto

end Tsql

end LocalSqlAgent
