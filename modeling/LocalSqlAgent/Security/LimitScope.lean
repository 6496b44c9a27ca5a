import LocalSqlAgent.Security.CleanPatterns
import Mathlib.Tactic.Tauto

/-! # What the cleaning leaves alone

`clean_sql` rewrites a statement by patterns that know neither quotes nor parentheses; T-SQL's own reading
of the statement (`Tsql.lexer`) says which of its characters are in a literal or a quoted identifier and
which limits belong to a subquery.

* **`Spares`**: literals and quoted identifiers stay as they are, the limits of subqueries stay where they
  are, and a cap comes from a limit of the outermost query.
* **`Harmless`**: the statements without a limit or a `SELECT TOP n DISTINCT` in quotes, without a limit in
  a subquery, and with the place and the number of the cap in the outermost query.
* **`piece_unchanged_iff`**: what becomes of the text between two quote marks.
* **`cleanSql_spares_iff`**: the cleaning spares the harmless statements and no others. -/

namespace LocalSqlAgent

open Tsql

/-! ## Quoted text -/

/-- A quote is open. -/
def Tsql.State.isQuoted (s : State) : Bool :=
  match s.mode with
  | .quoted _ => true
  | _ => false

/-- In code, and not inside a word. -/
def Tsql.State.atToken (s : State) : Bool :=
  match s.mode with
  | .code (.word _) => false
  | .code _ => true
  | _ => false

variable (T : CharTable) (digit : Char → ℕ) (repr : String → String)

/-- Whether a quote is open behind each quote mark. -/
def quotedFrom (s : State) : List Char → List Bool
  | [] => []
  | c :: cs =>
    let s' := ((lexer T).step s c).2
    if isQuoteMark c then s'.isQuoted :: quotedFrom s' cs else quotedFrom s' cs

/-- The texts between the quote marks. -/
def betweenQuotes (sql : List Char) : List (List Char) := sql.splitOnP isQuoteMark

/-- **Which of them are quoted**: inside a literal or a quoted identifier. -/
def quotedPieces (sql : List Char) : List Bool := false :: quotedFrom T (inCode 0) sql

/-- The quoted texts. -/
def quotedTexts (sql : List Char) : List (List Char) :=
  ((quotedPieces T sql).zip (betweenQuotes sql)).filterMap fun e => if e.1 then some e.2 else none

/-! ## Limits -/

/-- The digits of the limit that starts behind `u`, as a clause of its own in code. -/
def limitAt (u v : List Char) : Option (List Char) :=
  if ((lexer T).after (inCode 0) u).atToken then
    ((limitDigits T u.getLast? v).filter fun m => wordBoundary T m.1 m.2).map Prod.fst
  else none

/-- The parentheses open behind a part of a text. -/
def depthBehind (u : List Char) : ℤ := ((lexer T).after (inCode 0) u).depth

/-- **Where the limits of subqueries start**: inside parentheses, as those of `WITH` queries do. -/
def nestedLimits (sql : List Char) : List ℕ :=
  (List.range sql.length).filter fun p =>
    (limitAt T (sql.take p) (sql.drop p)).isSome && decide (0 < depthBehind T (sql.take p))

/-- The numbers of the limits of the outermost query. -/
def outermostNumbers (sql : List Char) : List ℕ :=
  (List.range sql.length).filterMap fun p =>
    if 0 < depthBehind T (sql.take p) then none
    else (limitAt T (sql.take p) (sql.drop p)).bind (intOf digit)

/-- The number of the first limit in a text, in whatever it stands. -/
def limitNumber (sql : List Char) : Option ℕ :=
  (searchFrom (limitDigits T) none sql).bind fun m => intOf digit m.1

/-- **Where `ensure_top` puts something in.** -/
def capPlaces (sql : List Char) : List ℕ :=
  match topLevelSelectMatches T sql with
  | [] => []
  | [start] =>
    let rest := sql.drop (start + "SELECT".length)
    match behindDistinct T rest with
    | some behind =>
      if topAfter T behind then [] else [start + "SELECT".length + (rest.length - behind.length)]
    | none => if topAfter T rest then [] else [start + "SELECT".length]
  | start :: _ :: _ => [start, sql.length]

/-- A cap is put into a text between two quote marks. -/
def CapIn (sql : List Char) (i : ℕ) : Prop :=
  (limitNumber T digit sql).isSome = true ∧
    ∃ place ∈ capPlaces T (stripLimits T sql), ((stripLimits T sql).take place).countP isQuoteMark = i

/-! ## The promise and its condition -/

/-- **What the cleaning is to leave alone.** -/
structure Spares (sql out : List Char) : Prop where
  /-- No character of a literal or a quoted identifier changes. -/
  quoted : ∀ i : ℕ, (quotedPieces T sql)[i]? = some true → (betweenQuotes out)[i]? = (betweenQuotes sql)[i]?
  /-- No letter of a subquery's limit is taken out. -/
  nested : ∀ p ∈ nestedLimits T sql, ∀ k < 5, (dropped (limitClause T) none 0 sql)[p + k]? ≠ some true
  /-- Where the outermost select takes a cap, the cap is a limit of the outermost query. -/
  outermost : ∀ n, limitNumber T digit sql = some n →
    ensureTop T repr (stripLimits T sql) n ≠ .ok (stripLimits T sql) → n ∈ outermostNumbers T digit sql

/-- **The statements the cleaning does no harm to.** -/
structure Harmless (sql : List Char) : Prop where
  /-- No quoted text holds a limit, or a `SELECT TOP n DISTINCT`. -/
  texts : ∀ p ∈ quotedTexts T sql,
    searchFrom (limitClause T) none p = none ∧ searchFrom (topDistinct T) none p = none
  /-- No limit stands inside parentheses. -/
  nested : nestedLimits T sql = []
  /-- A cap is not put into quoted text. -/
  place : ∀ i, (quotedPieces T sql)[i]? = some true → ¬ CapIn T digit sql i
  /-- The outermost select has a cap, or the first limit has the number of one of the outermost query. -/
  number : ∀ n, limitNumber T digit sql = some n → capPlaces T (stripLimits T sql) ≠ [] →
    n ∈ outermostNumbers T digit sql

variable {T} {digit} {repr} {s : State} {sql out x y z u v m p q : List Char} {n i : ℕ} {K L : ℕ → Prop}

theorem length_quotedPieces : (quotedPieces T sql).length = (betweenQuotes sql).length := by
  have hfrom : ∀ s, (quotedFrom T s sql).length + 1 = (betweenQuotes sql).length := by
    unfold betweenQuotes
    induction sql with
    | nil => exact fun _ => rfl
    | cons c cs ih =>
      intro s
      rw [List.splitOnP_cons_eq_if_modifyHead, quotedFrom]
      split
      · rw [List.length_cons, List.length_cons, ih]
      · rw [List.length_modifyHead, ih]
  exact hfrom (inCode 0)

theorem mem_quotedTexts : p ∈ quotedTexts T sql ↔
    ∃ i : ℕ, (quotedPieces T sql)[i]? = some true ∧ (betweenQuotes sql)[i]? = some p := by
  unfold quotedTexts
  rw [List.mem_filterMap]
  constructor
  · rintro ⟨⟨b, p'⟩, hmem, hp⟩
    obtain ⟨i, hi⟩ := List.mem_iff_getElem?.mp hmem
    obtain ⟨hflag, hpiece⟩ := List.getElem?_zip_eq_some.mp hi
    cases b with
    | false => cases hp
    | true =>
      cases hp
      exact ⟨i, hflag, hpiece⟩
  · rintro ⟨i, hflag, hpiece⟩
    exact ⟨(true, p), List.mem_iff_getElem?.mpr ⟨i, List.getElem?_zip_eq_some.mpr ⟨hflag, hpiece⟩⟩, rfl⟩

/-! ## What is put in -/

/-- **`y` is `x` with something put into the pieces `K`**: text with a `p` and without an `i`. -/
def PutIn (K : ℕ → Prop) (x y : List Char) : Prop :=
  ∀ (i : ℕ) (q : List Char), (betweenQuotes x)[i]? = some q → ∃ c, (betweenQuotes y)[i]? = some c ∧
    c.countP (sameLetter 'i') = q.countP (sameLetter 'i') ∧
    (K i → q.countP (sameLetter 'p') < c.countP (sameLetter 'p')) ∧ (¬ K i → c = q)

theorem putIn_refl : PutIn (fun _ => False) x x :=
  fun _ q hq => ⟨q, hq, rfl, False.elim, fun _ => rfl⟩

theorem PutIn.trans (h : PutIn K x y) (h' : PutIn L y z) : PutIn (fun i => K i ∨ L i) x z := by
  intro i q hq
  obtain ⟨c, hc, hi, hin, hout⟩ := h i q hq
  obtain ⟨c', hc', hi', hin', hout'⟩ := h' i c hc
  refine ⟨c', hc', hi'.trans hi, fun hKL => ?_, fun hKL => ?_⟩
  · -- what is not put in stays as it is, so either of the two makes the piece longer
    by_cases hK : K i
    · by_cases hL : L i
      · exact (hin hK).trans (hin' hL)
      · rw [hout' hL]
        exact hin hK
    · have hL : L i := hKL.resolve_left hK
      rw [hout hK] at hin'
      exact hin' hL
  · rw [hout' fun hL => hKL (.inr hL), hout fun hK => hKL (.inl hK)]

/-- Something put in between two parts of a text. -/
theorem putIn_insert (hmarks : ∀ c ∈ m, isQuoteMark c = false) (hi : m.countP (sameLetter 'i') = 0)
    (hp : 0 < m.countP (sameLetter 'p')) :
    PutIn (fun i => u.countP isQuoteMark = i) (u ++ v) (u ++ (m ++ v)) := by
  obtain ⟨A, l, r, B, hA, hsplit⟩ := splitOnP_insert isQuoteMark u v
  have hbefore := hsplit [] fun _ h => absurd h List.not_mem_nil
  rw [List.nil_append, List.nil_append] at hbefore
  intro i q hq
  unfold betweenQuotes at hq ⊢
  rw [hbefore] at hq
  rw [hsplit m hmarks, ← hA]
  by_cases hKi : A.length = i
  · subst hKi
    rw [List.getElem?_append_right le_rfl, Nat.sub_self, List.getElem?_cons_zero] at hq ⊢
    cases hq
    refine ⟨_, rfl, ?_, fun _ => ?_, fun h => absurd rfl h⟩
    · simp only [List.countP_append, hi, Nat.zero_add]
    · simp only [List.countP_append]
      omega
  · refine ⟨q, ?_, rfl, fun h => absurd h hKi, fun _ => rfl⟩
    rw [← hq]
    rcases Nat.lt_or_ge i A.length with hlt | hge
    · rw [List.getElem?_append_left hlt, List.getElem?_append_left hlt]
    · obtain ⟨k, rfl⟩ := Nat.exists_eq_add_of_lt (lt_of_le_of_ne hge hKi)
      rw [List.getElem?_append_right hge, List.getElem?_append_right hge, Nat.add_assoc,
        Nat.add_sub_cancel_left, List.getElem?_cons_succ, List.getElem?_cons_succ]

/-- What is put into a text with a cap: ` TOP n`, the head and the tail of the wrapper. -/
theorem capText_plain (n : ℕ) : ∀ m ∈ [topText n, 'S' :: (wrapHeadText n ++ ['(']), wrapTailText],
    (∀ c ∈ m, isQuoteMark c = false) ∧ m.countP (sameLetter 'i') = 0 ∧ 0 < m.countP (sameLetter 'p') := by
  have hdigits : (∀ c ∈ Nat.toDigits 10 n, isQuoteMark c = false) ∧
      (Nat.toDigits 10 n).countP (sameLetter 'i') = 0 := by
    refine ⟨fun c hc => ?_, List.countP_eq_zero.mpr fun c hc => ?_⟩
    · cases hmark : isQuoteMark c with
      | false => rfl
      | true =>
        have hword := isWord_of_isDigit (T := .ascii) (toDigits_digits n c hc)
        rw [(quoteMark_plain hmark).2] at hword
        cases hword
    · rw [sameLetter_digit (by decide) (toDigits_digits n c hc)]
      exact Bool.false_ne_true
  have htop : (∀ c ∈ topText n, isQuoteMark c = false) ∧ (topText n).countP (sameLetter 'i') = 0 ∧
      0 < (topText n).countP (sameLetter 'p') := by
    rw [topText_eq, List.countP_append, List.countP_append, hdigits.2]
    refine ⟨fun c hc => ?_, by decide, Nat.add_pos_left (by decide) _⟩
    rcases List.mem_append.mp hc with hc | hc
    · exact forall_mem_of_all (p := fun c => isQuoteMark c = false) (by decide) c hc
    · exact hdigits.1 c hc
  intro m hm
  simp only [List.mem_cons, List.not_mem_nil, or_false] at hm
  rcases hm with rfl | rfl | rfl
  · exact htop
  · have hwords : (∀ c ∈ ['S', 'E', 'L', 'E', 'C', 'T'] ++ [' ', '*', ' ', 'F', 'R', 'O', 'M', ' ', '('],
        isQuoteMark c = false) := forall_mem_of_all (by decide)
    have hsplit : 'S' :: (wrapHeadText n ++ ['(']) = ['S', 'E', 'L', 'E', 'C', 'T'] ++ (topText n ++
        [' ', '*', ' ', 'F', 'R', 'O', 'M', ' ', '(']) := by
      simp only [wrapHeadText, List.append_assoc, List.cons_append, List.nil_append]
    rw [hsplit]
    refine ⟨fun c hc => ?_, ?_, ?_⟩
    · rcases List.mem_append.mp hc with hc | hc
      · exact hwords c (List.mem_append_left _ hc)
      · rcases List.mem_append.mp hc with hc | hc
        · exact htop.1 c hc
        · exact hwords c (List.mem_append_right _ hc)
    · rw [List.countP_append, List.countP_append, htop.2.1]
      decide
    · rw [List.countP_append, List.countP_append]
      have := htop.2.2
      omega
  · exact ⟨forall_mem_of_all (by decide), by decide, by decide⟩

/-- **What `ensure_top` makes of a text**: itself, the text with a cap, or the wrapped text. -/
theorem ensureTop_cases (h : ensureTop T repr x n = .ok y) :
    (capPlaces T x = [] ∧ y = x) ∨
      (∃ k, capPlaces T x = [k] ∧ y = x.take k ++ (topText n ++ x.drop k)) ∨
        ∃ k, capPlaces T x = [k, x.length] ∧ y = x.take k ++ wrapped n (x.drop k) := by
  unfold ensureTop at h
  unfold capPlaces
  cases hmatch : topLevelSelectMatches T x with
  | nil =>
    rw [hmatch] at h
    cases h
  | cons start rest =>
    rw [hmatch] at h
    cases rest with
    | nil =>
      simp only at h ⊢
      cases hdistinct : behindDistinct T (x.drop (start + "SELECT".length)) with
      | none =>
        rw [hdistinct] at h
        simp only at h ⊢
        split at h
        · rename_i htop
          cases h
          exact .inl ⟨if_pos htop, rfl⟩
        · rename_i htop
          cases h
          exact .inr (.inl ⟨_, if_neg htop, by rw [List.append_assoc]⟩)
      | some behind =>
        rw [hdistinct] at h
        simp only at h ⊢
        split at h
        · rename_i htop
          cases h
          exact .inl ⟨if_pos htop, rfl⟩
        · rename_i htop
          cases h
          obtain ⟨sp, w, hrest, -⟩ := behindDistinct_eq_some_iff.mp hdistinct
          refine .inr (.inl ⟨_, if_neg htop, ?_⟩)
          -- the cap stands behind the `DISTINCT`, in front of what follows it
          have hlength : (x.drop (start + "SELECT".length)).length - behind.length = (sp ++ w).length := by
            rw [hrest, ← List.append_assoc, List.length_append, Nat.add_sub_cancel]
          have htake : ∀ k, x.take (start + "SELECT".length + k) =
              x.take (start + "SELECT".length) ++ (x.drop (start + "SELECT".length)).take k := fun k => List.take_add
          have hdrop : x.drop (start + "SELECT".length + (sp ++ w).length) = behind := by
            rw [← List.drop_drop, hrest, ← List.append_assoc, List.drop_left]
          rw [hlength, htake, hdrop, List.append_assoc, List.append_assoc]
    | cons q qs =>
      simp only at h ⊢
      split at h
      · cases h
      · cases h
        exact .inr (.inr ⟨start, rfl, rfl⟩)

/-- **`ensure_top` puts text into the pieces its places stand in**, and nothing where it has none. -/
theorem ensureTop_putIn (h : ensureTop T repr x n = .ok y) :
    PutIn (fun i => ∃ place ∈ capPlaces T x, (x.take place).countP isQuoteMark = i) x y ∧
      (capPlaces T x ≠ [] → y ≠ x) := by
  obtain ⟨htop, hplain⟩ := List.forall_mem_cons.mp (capText_plain n)
  obtain ⟨hhead, hplain⟩ := List.forall_mem_cons.mp hplain
  obtain ⟨htail, -⟩ := List.forall_mem_cons.mp hplain
  obtain ⟨hplaces, rfl⟩ | ⟨k, hplaces, rfl⟩ | ⟨k, hplaces, rfl⟩ := ensureTop_cases h
  · rw [hplaces]
    refine ⟨fun i q hq => ⟨q, hq, rfl, ?_, fun _ => rfl⟩, fun hne => absurd rfl hne⟩
    rintro ⟨place, hmem, -⟩
    exact absurd hmem List.not_mem_nil
  · rw [hplaces]
    refine ⟨?_, fun _ heq => ?_⟩
    · have hput := @putIn_insert (x.take k) (x.drop k) (topText n) htop.1 htop.2.1 htop.2.2
      rw [List.take_append_drop] at hput
      simpa only [List.mem_singleton, exists_eq_left] using hput
    · have hlength := congrArg (List.countP (sameLetter 'p')) heq
      conv at hlength => rhs; rw [← List.take_append_drop k x]
      simp only [List.countP_append] at hlength
      omega
  · rw [hplaces]
    have hwrapped : x.take k ++ wrapped n (x.drop k) =
        (x.take k ++ (('S' :: (wrapHeadText n ++ ['('])) ++ x.drop k)) ++ (wrapTailText ++ []) := by
      rw [wrapped_split]
      simp only [List.append_assoc, List.cons_append, List.nil_append, List.append_nil]
    refine ⟨?_, fun _ heq => ?_⟩
    · have hput := @putIn_insert (x.take k) (x.drop k) _ hhead.1 hhead.2.1 hhead.2.2
      have hput' := @putIn_insert (x.take k ++ (('S' :: (wrapHeadText n ++ ['('])) ++ x.drop k)) [] wrapTailText
        htail.1 htail.2.1 htail.2.2
      rw [List.take_append_drop] at hput
      rw [List.append_nil, ← hwrapped] at hput'
      -- the head has no quote marks, so behind it the pieces count as before
      have hcount : (x.take k ++ (('S' :: (wrapHeadText n ++ ['('])) ++ x.drop k)).countP isQuoteMark =
          x.countP isQuoteMark := by
        rw [List.countP_append, List.countP_append, countP_plain hhead.1, Nat.zero_add, ← List.countP_append,
          List.take_append_drop]
      have hboth := hput.trans hput'
      simp only [hcount] at hboth
      simpa only [List.mem_cons, List.not_mem_nil, or_false, exists_eq_or_imp, exists_eq_left,
        List.take_length] using hboth
    · have hlength := congrArg (List.countP (sameLetter 'p')) heq
      rw [hwrapped] at hlength
      conv at hlength => rhs; rw [← List.take_append_drop k x]
      simp only [List.countP_append] at hlength
      have := hhead.2.2
      omega

/-! ## The ends of a text -/

theorem spaces_unmarked (hm : ∀ c ∈ m, isPySpace c = true) : ∀ c ∈ m, isQuoteMark c = false := by
  intro c hc
  cases hmark : isQuoteMark c with
  | false => rfl
  | true =>
    have hspace := hm c hc
    rw [(quoteMark_plain (T := .ascii) hmark).1] at hspace
    cases hspace

/-- What is left of a text when it is stripped. -/
theorem strip_split (x : List Char) : ∃ sp sp', x = sp ++ (strip x ++ sp') ∧
    (∀ c ∈ sp, isPySpace c = true) ∧ ∀ c ∈ sp', isPySpace c = true := by
  refine ⟨x.takeWhile isPySpace, ((lstrip x).reverse.takeWhile isPySpace).reverse, ?_,
    fun c hc => List.mem_takeWhile_imp hc, fun c hc => List.mem_takeWhile_imp (List.mem_reverse.mp hc)⟩
  have hright : strip x ++ ((lstrip x).reverse.takeWhile isPySpace).reverse = lstrip x := by
    rw [strip, rstrip, ← List.reverse_append, List.takeWhile_append_dropWhile, List.reverse_reverse]
  rw [hright, lstrip, List.takeWhile_append_dropWhile]

/-- **The pieces behind the first** lose white space at the end of the last one only. -/
theorem strip_pieces {i : ℕ} (hi : i ≠ 0) (hq : (betweenQuotes x)[i]? = some q) :
    ∃ o sp, (betweenQuotes (strip x))[i]? = some o ∧ q = o ++ sp ∧ (∀ c ∈ sp, isPySpace c = true) ∧
      (i + 1 < (betweenQuotes x).length → sp = []) := by
  obtain ⟨sp, sp', hsplit, hsp, hsp'⟩ := strip_split x
  obtain ⟨A, l, -, hend⟩ := splitOnP_end isQuoteMark (strip x)
  have hstrip := hend [] fun _ h => absurd h List.not_mem_nil
  rw [List.append_nil, List.append_nil] at hstrip
  have hx : betweenQuotes x = (A ++ [l ++ sp']).modifyHead (sp ++ ·) := by
    unfold betweenQuotes
    rw [← hend sp' (spaces_unmarked hsp'), ← splitOnP_plain_append (spaces_unmarked hsp), ← hsplit]
  have hbehind : (A ++ [l ++ sp'])[i]? = some q := by
    obtain ⟨j, rfl⟩ := Nat.exists_eq_succ_of_ne_zero hi
    rw [hx] at hq
    cases A with
    | nil => exact hq
    | cons a A => exact hq
  have hlength : (betweenQuotes x).length = A.length + 1 := by
    rw [hx, List.length_modifyHead, List.length_append, List.length_singleton]
  unfold betweenQuotes
  rw [hstrip, ← betweenQuotes]
  rcases Nat.lt_or_ge i A.length with hlt | hge
  · rw [List.getElem?_append_left hlt] at hbehind ⊢
    exact ⟨q, [], hbehind, (List.append_nil q).symm, fun _ h => absurd h List.not_mem_nil, fun _ => rfl⟩
  · rw [List.getElem?_append_right hge] at hbehind ⊢
    have hlast : i - A.length = 0 := by
      have hlt := (List.getElem?_eq_some_iff.mp hbehind).1
      rw [List.length_singleton] at hlt
      omega
    rw [hlast] at hbehind ⊢
    cases hbehind
    exact ⟨l, sp', rfl, rfl, hsp', fun hlt => absurd hlt (by omega)⟩

/-- A stripped text does not end with white space. -/
theorem strip_no_space (h : strip x = u ++ m) (hm : ∀ c ∈ m, isPySpace c = true) : m = [] := by
  by_contra hne
  obtain ⟨m', c, rfl⟩ := List.eq_nil_or_concat' m |>.resolve_left hne
  have hreverse : (lstrip x).reverse.dropWhile isPySpace = c :: (u ++ m').reverse := by
    have hrev := congrArg List.reverse h
    rw [strip, rstrip, List.reverse_reverse, ← List.append_assoc, List.reverse_concat] at hrev
    exact hrev
  have hhead := List.head_dropWhile_not isPySpace (l := (lstrip x).reverse)
    (by rw [hreverse]; exact List.cons_ne_nil _ _)
  simp only [hreverse, List.head_cons] at hhead
  rw [hm c (List.mem_append_right _ List.mem_cons_self)] at hhead
  cases hhead

/-! ## From the statement to what is returned -/

/-- Taking the limits out goes piece by piece. -/
theorem stripLimits_piece (hp : (betweenQuotes sql)[i]? = some p) :
    (betweenQuotes (stripLimits T sql))[i]? = some (stripLimits T p) := by
  unfold betweenQuotes stripLimits at *
  rw [splitOnP_subAll limitClause_separates limitClause_takesSome, List.getElem?_map, hp]
  rfl

/-- The fix of `TOP` and `DISTINCT` goes piece by piece. -/
theorem fixTopDistinct_piece (hp : (betweenQuotes sql)[i]? = some p) :
    (betweenQuotes (fixTopDistinct T sql))[i]? = some (fixTopDistinct T p) := by
  unfold betweenQuotes fixTopDistinct at *
  rw [splitOnP_subAll topDistinct_separates topDistinct_takesSome, List.getElem?_map, hp]
  rfl

/-- The fourth step takes the limits out and has the cap put in, where there is a limit at all. -/
theorem limited_putIn (h : limited T digit repr sql = .ok y) :
    PutIn (CapIn T digit sql) (stripLimits T sql) y := by
  unfold limited at h
  cases hsearch : searchFrom (limitDigits T) none sql with
  | none =>
    rw [hsearch] at h
    cases h
    have hno : ¬ (limitNumber T digit sql).isSome = true := by
      rw [limitNumber, hsearch]
      exact Bool.false_ne_true
    rw [stripLimits, subAll_eq_self (no_limitClause hsearch)]
    exact fun i q hq => ⟨q, hq, rfl, fun hcap => absurd hcap.1 hno, fun _ => rfl⟩
  | some found =>
    rw [hsearch] at h
    simp only at h
    cases hint : intOf digit found.1 with
    | none =>
      rw [hint] at h
      cases h
    | some n =>
      rw [hint] at h
      simp only at h
      have hnumber : (limitNumber T digit sql).isSome = true := by
        rw [limitNumber, hsearch, Option.bind_some, hint]
        rfl
      cases hcapped : ensureTop T repr (stripLimits T sql) n with
      | error e =>
        rw [hcapped] at h
        cases h
      | ok y' =>
        rw [hcapped] at h
        cases h
        have hcap : CapIn T digit sql = fun i => ∃ place ∈ capPlaces T (stripLimits T sql),
            ((stripLimits T sql).take place).countP isQuoteMark = i := by
          funext i
          rw [CapIn, hnumber, eq_self_iff_true, true_and]
        rw [hcap]
        exact (ensureTop_putIn hcapped).1

/-- **What becomes of the text between two quote marks**: it stays as it is where it holds no limit and no
`SELECT TOP n DISTINCT` and takes no cap, and nowhere else. -/
theorem piece_unchanged_iff (hi : i ≠ 0) (hp : (betweenQuotes sql)[i]? = some p)
    (hstripped : ∃ found, strip found = sql) (h : limited T digit repr sql = .ok y) :
    (betweenQuotes (strip (fixTopDistinct T y)))[i]? = some p ↔
      searchFrom (limitClause T) none p = none ∧ searchFrom (topDistinct T) none p = none ∧
        ¬ CapIn T digit sql i := by
  have hfixed : ∀ {j : ℕ} {q : List Char}, (betweenQuotes sql)[j]? = some q → ∃ c,
      (betweenQuotes (fixTopDistinct T y))[j]? = some (fixTopDistinct T c) ∧
        c.countP (sameLetter 'i') = (stripLimits T q).countP (sameLetter 'i') ∧
        (CapIn T digit sql j → (stripLimits T q).countP (sameLetter 'p') < c.countP (sameLetter 'p')) ∧
        (¬ CapIn T digit sql j → c = stripLimits T q) := by
    intro j q hq
    obtain ⟨c, hc, hrest⟩ := limited_putIn h j _ (stripLimits_piece hq)
    exact ⟨c, fixTopDistinct_piece hc, hrest⟩
  obtain ⟨c, hc, hletter, hin, hout⟩ := hfixed hp
  obtain ⟨o, sp, ho, hsplit, hsp, hlast⟩ := strip_pieces hi hc
  rw [ho, Option.some.injEq]
  constructor
  · rintro rfl
    -- the letters of the piece, step by step
    have hcount : ∀ {l : Char}, isPatternLetter l = true →
        ("SELECT DISTINCT TOP ".toList).countP (sameLetter l) =
          selectLetters.count l + (topLetters.count l + distinctLetters.count l) →
        c.countP (sameLetter l) = o.countP (sameLetter l) := by
      intro l hl hwords
      have hkeep := @countP_subAll Char (topDistinct T) none c (sameLetter l) topDistinct_takesSome
        fun b w new rest hfind => keeps_topDistinct hl hwords hfind
      rw [← fixTopDistinct, hsplit, List.countP_append, countP_spaces hsp hl, Nat.add_zero] at hkeep
      exact hkeep.symm
    have hclause : searchFrom (limitClause T) none o = none :=
      (@eq_of_countP_subAll Char (limitClause T) none o (sameLetter 'i') limitClause_takesSome
        fun b w new rest hfind => lt_of_limitClause hfind).2 (hletter.symm.trans (hcount (by decide) (by decide)))
    have hself : stripLimits T o = o := subAll_eq_self hclause
    have hcap : ¬ CapIn T digit sql i := by
      intro hcap
      have hmore := hin hcap
      rw [hself, hcount (by decide) (by decide)] at hmore
      exact absurd hmore (lt_irrefl _)
    refine ⟨hclause, ?_, hcap⟩
    rw [hout hcap, hself] at hsplit
    cases hfound : searchFrom (topDistinct T) none o with
    | none => rfl
    | some found =>
      obtain ⟨x, w, b, hx, hmatch, hsub⟩ := exists_first_match topDistinct_takesSome hfound
      rw [fixTopDistinct, hsub] at hsplit
      conv at hsplit => rhs; rw [hx]
      rw [List.append_assoc, List.append_cancel_left_eq, List.append_assoc] at hsplit
      exact absurd hsplit (topDistinct_ne hmatch)
  · rintro ⟨hclause, htop, hcap⟩
    have hself : fixTopDistinct T c = p := by
      rw [hout hcap, stripLimits, subAll_eq_self hclause, fixTopDistinct, subAll_eq_self htop]
    rw [hself] at hsplit
    -- white space is lost at the end of the last piece, where the statement has none
    have hnil : sp = [] := by
      by_cases hlt : i + 1 < (betweenQuotes (fixTopDistinct T y)).length
      · exact hlast hlt
      · have hend : i + 1 = (betweenQuotes sql).length := by
          refine le_antisymm (List.getElem?_eq_some_iff.mp hp).1 (Nat.not_lt.mp fun hnext => hlt ?_)
          obtain ⟨c', hc', -⟩ := hfixed (List.getElem?_eq_getElem hnext)
          exact (List.getElem?_eq_some_iff.mp hc').1
        obtain ⟨A, l, ⟨t, ht⟩, hpieces⟩ := splitOnP_end isQuoteMark sql
        have hsql := hpieces [] fun _ h => absurd h List.not_mem_nil
        rw [List.append_nil, List.append_nil, ← betweenQuotes] at hsql
        rw [hsql, List.length_append, List.length_singleton] at hend
        rw [hsql, Nat.add_right_cancel hend, List.getElem?_append_right le_rfl, Nat.sub_self] at hp
        cases hp
        obtain ⟨found, hfound⟩ := hstripped
        rw [← ht, hsplit, ← List.append_assoc] at hfound
        exact strip_no_space hfound hsp
    rw [hsplit, hnil, List.append_nil]

/-! ## The limits of subqueries -/

/-- A limit in code starts with a letter, so the clause is matched there. -/
theorem limitClause_of_limitAt (h : (limitAt T u v).isSome = true) :
    (limitClause T u.getLast? v).isSome = true := by
  unfold limitAt at h
  split at h
  · rw [Option.isSome_map] at h
    obtain ⟨found, hfilter⟩ := Option.isSome_iff_exists.mp h
    obtain ⟨hfound, hboundary⟩ := Option.filter_eq_some_iff.mp hfilter
    obtain ⟨w, sp, rfl, hw⟩ := limitDigits_eq_some hfound
    cases hw with
    | @cons p c ps w hc hw =>
      have hspace : isPySpace c = false := by
        cases hspace : isPySpace c with
        | false => rfl
        | true =>
          have hword := isWord_of_sameLetter (T := T) (by decide) hc
          rw [T.word_space c hspace] at hword
          cases hword
      unfold limitClause
      rw [List.cons_append, List.takeWhile_cons, List.dropWhile_cons, hspace]
      simp only [Bool.false_eq_true, if_false, List.getLast?_nil, Option.none_or]
      rw [List.cons_append] at hfound
      rw [hfound]
      simp only [hboundary, if_true, Option.isSome_some]
  · cases h

theorem dropped_of_nested {k : ℕ} (h : k ∈ nestedLimits T sql) :
    (dropped (limitClause T) none 0 sql)[k]? = some true := by
  rw [nestedLimits, List.mem_filter, List.mem_range, Bool.and_eq_true] at h
  obtain ⟨hk, hlimit, -⟩ := h
  have hfind := limitClause_of_limitAt hlimit
  rw [List.drop_eq_getElem_cons hk] at hfind
  have hdropped := @dropped_of_find Char (limitClause T) none sql[k] (sql.take k) (sql.drop (k + 1)) 0 (by
    rwa [Option.or_none])
  rwa [← List.drop_eq_getElem_cons hk, List.take_append_drop, List.length_take_of_le hk.le] at hdropped

/-! ## The whole of it -/

/-- A statement that is returned has passed the steps. -/
theorem cleanSql_cases {raw : List Char} (hsql : extracted T repr raw = .ok sql)
    (hout : cleanSql T digit repr raw = .ok out) :
    (∃ found, strip found = sql) ∧
      ∃ y, limited T digit repr sql = .ok y ∧ out = strip (fixTopDistinct T y) := by
  constructor
  · unfold extracted at hsql
    split at hsql
    · cases hsql
    · simp only at hsql
      split at hsql
      · cases hsql
      · rename_i found _
        cases hsql
        exact ⟨found, rfl⟩
  · have hsteps : cleanSql T digit repr raw =
        (limited T digit repr sql).map fun sql => strip (fixTopDistinct T sql) := by
      rw [cleanSql, hsql]
      rfl
    rw [hsteps] at hout
    cases hlimited : limited T digit repr sql with
    | error e =>
      rw [hlimited] at hout
      cases hout
    | ok y =>
      rw [hlimited] at hout
      cases hout
      exact ⟨y, rfl, rfl⟩

/-- **The cleaning spares the harmless statements** and no others, for every answer that a statement is
returned for. -/
theorem cleanSql_spares_iff {raw : List Char} (hsql : extracted T repr raw = .ok sql)
    (hout : cleanSql T digit repr raw = .ok out) :
    Spares T digit repr sql out ↔ Harmless T digit sql := by
  obtain ⟨hstripped, y, hlimited, rfl⟩ := cleanSql_cases hsql hout
  have hpiece : ∀ {i : ℕ} {p : List Char}, (quotedPieces T sql)[i]? = some true →
      (betweenQuotes sql)[i]? = some p →
      ((betweenQuotes (strip (fixTopDistinct T y)))[i]? = some p ↔
        searchFrom (limitClause T) none p = none ∧ searchFrom (topDistinct T) none p = none ∧
          ¬ CapIn T digit sql i) := by
    intro i p hflag hp
    have hi : i ≠ 0 := by
      rintro rfl
      exact absurd hflag (by simp [quotedPieces])
    exact piece_unchanged_iff hi hp hstripped hlimited
  have hexists : ∀ {i : ℕ}, (quotedPieces T sql)[i]? = some true → ∃ p, (betweenQuotes sql)[i]? = some p := by
    intro i hflag
    have hlt := (List.getElem?_eq_some_iff.mp hflag).1
    rw [length_quotedPieces] at hlt
    exact ⟨_, List.getElem?_eq_getElem hlt⟩
  constructor
  · intro h
    refine ⟨fun p hp => ?_, ?_, fun i hflag => ?_, fun n hn hplaces => h.outermost n hn ?_⟩
    · obtain ⟨i, hflag, hp⟩ := mem_quotedTexts.mp hp
      obtain ⟨hclause, htop, -⟩ := (hpiece hflag hp).mp ((h.quoted i hflag).trans hp)
      exact ⟨hclause, htop⟩
    · refine List.eq_nil_iff_forall_not_mem.mpr fun k hk => ?_
      exact h.nested k hk 0 (by decide) (dropped_of_nested hk)
    · obtain ⟨p, hp⟩ := hexists hflag
      exact ((hpiece hflag hp).mp ((h.quoted i hflag).trans hp)).2.2
    · exact fun hcapped => (ensureTop_putIn hcapped).2 hplaces rfl
  · intro h
    refine ⟨fun i hflag => ?_, fun k hk => ?_, fun n hn hchanged => h.number n hn fun hplaces => hchanged ?_⟩
    · obtain ⟨p, hp⟩ := hexists hflag
      obtain ⟨hclause, htop⟩ := h.texts p (mem_quotedTexts.mpr ⟨i, hflag, hp⟩)
      rw [hp]
      exact (hpiece hflag hp).mpr ⟨hclause, htop, h.place i hflag⟩
    · rw [h.nested] at hk
      exact absurd hk List.not_mem_nil
    · -- with no place for a cap, the text is returned as it was given
      obtain ⟨hsearch, hint⟩ := Option.bind_eq_some_iff.mp hn
      unfold limited at hlimited
      rw [hint.1] at hlimited
      simp only [hint.2] at hlimited
      cases hcapped : ensureTop T repr (stripLimits T sql) n with
      | error e =>
        rw [hcapped] at hlimited
        cases hlimited
      | ok z =>
        obtain ⟨-, rfl⟩ | ⟨k, hplace, -⟩ | ⟨k, hplace, -⟩ := ensureTop_cases hcapped
        · rfl
        · rw [hplaces] at hplace
          cases hplace
        · rw [hplaces] at hplace
          cases hplace

/-- The digits of ASCII. -/
def asciiDigit (c : Char) : ℕ := c.toNat - 48

/-- A limit of the outermost query, beside a literal. -/
theorem outerLimit_spared :
    Spares .ascii asciiDigit id "SELECT a FROM t WHERE b = 'x' LIMIT 5".toList
      "SELECT TOP 5 a FROM t WHERE b = 'x'".toList := by
  refine (@cleanSql_spares_iff .ascii asciiDigit id _ _ "SELECT a FROM t WHERE b = 'x' LIMIT 5".toList
    (by decide) (by decide)).mpr ⟨by decide, by decide, ?_, ?_⟩
  · rintro i hflag ⟨-, place, hplace, rfl⟩
    have hplaces : capPlaces .ascii (stripLimits .ascii "SELECT a FROM t WHERE b = 'x' LIMIT 5".toList) = [6] := by
      decide
    rw [hplaces, List.mem_singleton] at hplace
    subst hplace
    exact absurd hflag (by decide)
  · intro n hn _
    have hnumber : limitNumber .ascii asciiDigit "SELECT a FROM t WHERE b = 'x' LIMIT 5".toList = some 5 := by
      decide
    rw [hnumber, Option.some.injEq] at hn
    subst hn
    decide

/-- A limit in a literal is taken out of it, and a limit of a subquery becomes the cap. -/
theorem quotedLimit_not_spared :
    (cleanSql .ascii asciiDigit id "SELECT a FROM t WHERE b = 'LIMIT 5'".toList =
        .ok "SELECT TOP 5 a FROM t WHERE b = ''".toList ∧
      ¬ Spares .ascii asciiDigit id "SELECT a FROM t WHERE b = 'LIMIT 5'".toList
        "SELECT TOP 5 a FROM t WHERE b = ''".toList) ∧
    (cleanSql .ascii asciiDigit id "SELECT * FROM (SELECT a FROM t LIMIT 3) z".toList =
        .ok "SELECT TOP 3 * FROM (SELECT a FROM t) z".toList ∧
      ¬ Spares .ascii asciiDigit id "SELECT * FROM (SELECT a FROM t LIMIT 3) z".toList
        "SELECT TOP 3 * FROM (SELECT a FROM t) z".toList) := by
  refine ⟨⟨by decide, fun h => ?_⟩, by decide, fun h => ?_⟩
  · have hpiece := h.quoted 1 (by decide)
    exact absurd hpiece (by decide)
  · have hkept := h.nested 31 (by decide) 0 (by decide)
    exact hkept (by decide)

end LocalSqlAgent
