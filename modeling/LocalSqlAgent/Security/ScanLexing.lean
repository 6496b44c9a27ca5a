import LocalSqlAgent.Security.EnsureTop
import Mathlib.Data.List.Induction

/-! # What the scan says of each character

`_scan_structure` against the lexing rule of string literals, stated on whole literals and without a scanner:
a quote opens a literal, a doubled quote stays inside it, a single one closes it, and an open literal
reaches to the end of the text.

* **`LiteralBody`**: what may stand between the quotes of a literal.
* **`LexedAs`**: the rule, with the mark of every character.
* **`scanStructure_lexed`**: one depth and one mark a character; no depth is negative, the marks are those of
  the rule, and no character of a literal changes the depth. -/

namespace LocalSqlAgent

/-! ## The rule -/

/-- **The inside of a literal**: characters other than a quote, and doubled quotes. -/
inductive LiteralBody : List Char → Prop
  | nil : LiteralBody []
  | char {c : Char} {cs : List Char} : c ≠ '\'' → LiteralBody cs → LiteralBody (c :: cs)
  | doubled {cs : List Char} : LiteralBody cs → LiteralBody ('\'' :: '\'' :: cs)

/-- **The lexing rule**: which characters of a text belong to a literal, its quotes included. The quote that
closes a literal is not doubled. -/
inductive LexedAs : List Char → List Bool → Prop
  | done : LexedAs [] []
  | code {c : Char} {cs : List Char} {marks : List Bool} :
      c ≠ '\'' → LexedAs cs marks → LexedAs (c :: cs) (false :: marks)
  | literal {body cs : List Char} {marks : List Bool} :
      LiteralBody body → cs.head? ≠ some '\'' → LexedAs cs marks →
      LexedAs ('\'' :: (body ++ '\'' :: cs)) (List.replicate (body.length + 2) true ++ marks)
  | unclosed {body : List Char} :
      LiteralBody body → LexedAs ('\'' :: body) (List.replicate (body.length + 1) true)

variable {c : Char} {cs body sql : List Char} {marks : List Bool} {d : ℤ} {b : Bool}

/-- **A text behind an opening quote is the inside of a literal, or holds the quote that closes it.** -/
theorem literalBody_or_closed (cs : List Char) : LiteralBody cs ∨
    ∃ body rest, cs = body ++ '\'' :: rest ∧ LiteralBody body ∧ rest.head? ≠ some '\'' := by
  -- two characters at a time, for the doubled quotes
  induction cs using List.twoStepInduction with
  | nil => exact .inl .nil
  | singleton c =>
    by_cases hquote : c = '\''
    · exact .inr ⟨[], [], by rw [hquote, List.nil_append], .nil, by simp⟩
    · exact .inl (.char hquote .nil)
  | cons_cons c c' cs ihtwo ihone =>
    by_cases hquote : c = '\''
    · subst hquote
      by_cases hdouble : c' = '\''
      · subst hdouble
        rcases ihtwo with hbody | ⟨body, rest, rfl, hbody, hrest⟩
        · exact .inl (.doubled hbody)
        · exact .inr ⟨'\'' :: '\'' :: body, rest, rfl, .doubled hbody, hrest⟩
      · exact .inr ⟨[], c' :: cs, rfl, .nil, by simpa using hdouble⟩
    · rcases ihone c' with hbody | ⟨body, rest, heq, hbody, hrest⟩
      · exact .inl (.char hquote hbody)
      · exact .inr ⟨c :: body, rest, by rw [heq, List.cons_append], .char hquote hbody, hrest⟩

/-- **The rule reads every text.** -/
theorem exists_lexedAs (sql : List Char) : ∃ marks, LexedAs sql marks := by
  -- on the length: what follows a literal is shorter than the text
  induction hlength : sql.length using Nat.strong_induction_on generalizing sql with
  | _ n ih =>
    cases sql with
    | nil => exact ⟨[], .done⟩
    | cons c cs =>
      by_cases hquote : c = '\''
      · subst hquote
        rcases literalBody_or_closed cs with hbody | ⟨body, rest, rfl, hbody, hrest⟩
        · exact ⟨_, .unclosed hbody⟩
        · have hshort : rest.length < n := by
            simp only [List.length_cons, List.length_append] at hlength
            omega
          obtain ⟨marks, hmarks⟩ := ih rest.length hshort rest rfl
          exact ⟨_, .literal hbody hrest hmarks⟩
      · obtain ⟨marks, hmarks⟩ := ih cs.length (by rw [← hlength, List.length_cons]; omega) cs rfl
        exact ⟨_, .code hquote hmarks⟩

/-! ## The scan follows the rule -/

theorem scanFrom_outside : scanFrom d false (c :: cs) =
    if c = '\'' then (d, true) :: scanFrom d true cs
    else if c = '(' then (d, false) :: scanFrom (d + 1) false cs
    else if c = ')' then (d, false) :: scanFrom (max 0 (d - 1)) false cs
    else (d, false) :: scanFrom d false cs := by
  cases cs <;> rfl

theorem scanFrom_inside {c' : Char} : scanFrom d true (c :: c' :: cs) =
    if c = '\'' then
      if c' = '\'' then (d, true) :: (d, true) :: scanFrom d true cs
      else (d, true) :: scanFrom d false (c' :: cs)
    else (d, true) :: scanFrom d true (c' :: cs) := rfl

/-- Outside every literal a character that is no quote is not marked; no parenthesis makes the depth
negative. -/
theorem scanFrom_code (h : c ≠ '\'') :
    ∃ d', scanFrom d false (c :: cs) = (d, false) :: scanFrom d' false cs ∧ (0 ≤ d → 0 ≤ d') := by
  by_cases hopen : c = '('
  · exact ⟨d + 1, by rw [scanFrom_outside, if_neg h, if_pos hopen], by omega⟩
  · by_cases hclose : c = ')'
    · exact ⟨max 0 (d - 1), by rw [scanFrom_outside, if_neg h, if_neg hopen, if_pos hclose], fun _ => le_max_left _ _⟩
    · exact ⟨d, by rw [scanFrom_outside, if_neg h, if_neg hopen, if_neg hclose], id⟩

/-- An opening quote is marked, and the scan goes on inside the literal. -/
theorem scanFrom_open : scanFrom d false ('\'' :: cs) = (d, true) :: scanFrom d true cs :=
  scanFrom_outside.trans (if_pos rfl)

/-- Inside a literal a character other than a quote is marked and changes nothing. -/
theorem scanFrom_char (h : c ≠ '\'') : scanFrom d true (c :: cs) = (d, true) :: scanFrom d true cs := by
  cases cs with
  | nil => rfl
  | cons c' cs => rw [scanFrom_inside, if_neg h]

/-- A doubled quote is read in one step and stays inside. -/
theorem scanFrom_doubled :
    scanFrom d true ('\'' :: '\'' :: cs) = (d, true) :: (d, true) :: scanFrom d true cs := rfl

/-- A quote that is not doubled closes the literal. -/
theorem scanFrom_close (h : cs.head? ≠ some '\'') :
    scanFrom d true ('\'' :: cs) = (d, true) :: scanFrom d false cs := by
  cases cs with
  | nil => rfl
  | cons c' cs =>
    have hsingle : c' ≠ '\'' := by simpa using h
    rw [scanFrom_inside, if_pos rfl, if_neg hsingle]

/-- **A literal is scanned to its closing quote**, all of it in the string and at one depth. -/
theorem scanFrom_literal (hbody : LiteralBody body) (h : cs.head? ≠ some '\'') :
    scanFrom d true (body ++ '\'' :: cs) =
      List.replicate (body.length + 1) (d, true) ++ scanFrom d false cs := by
  induction hbody with
  | nil => exact scanFrom_close h
  | char hc _ ih =>
    rw [List.cons_append, scanFrom_char hc, ih]
    rfl
  | doubled _ ih =>
    rw [List.cons_append, List.cons_append, scanFrom_doubled, ih]
    rfl

/-- A literal that is never closed is scanned to the end of the text. -/
theorem scanFrom_unclosed (hbody : LiteralBody body) :
    scanFrom d true body = List.replicate body.length (d, true) := by
  induction hbody with
  | nil => rfl
  | char hc _ ih =>
    rw [scanFrom_char hc, ih]
    rfl
  | doubled _ ih =>
    rw [scanFrom_doubled, ih]
    rfl

/-- **Every reading of a text by the rule gives the marks of the scan.** -/
theorem LexedAs.marks_eq (h : LexedAs cs marks) : marks = (scanFrom d false cs).map Prod.snd := by
  -- at any depth: parentheses between the literals change it
  induction h generalizing d with
  | done => rfl
  | code hc _ ih =>
    obtain ⟨d', hscan, -⟩ := scanFrom_code (d := d) hc
    rw [hscan, List.map_cons, ← ih]
  | literal hbody hnext _ ih =>
    rw [scanFrom_open, scanFrom_literal hbody hnext, List.map_cons, List.map_append, List.map_replicate,
      ← ih]
    rfl
  | unclosed hbody =>
    rw [scanFrom_open, scanFrom_unclosed hbody, List.map_cons, List.map_replicate]
    rfl

/-! ## Depths -/

/-- **One character of the scan**: it is at the depth so far, the next depth is no more negative, and a
character of a literal leaves the depth as it is. -/
theorem scanFrom_step (d : ℤ) (b : Bool) (c : Char) (cs : List Char) : ∃ mark d' b',
    scanFrom d b (c :: cs) = (d, mark) :: scanFrom d' b' cs ∧ (0 ≤ d → 0 ≤ d') ∧ (mark = true → d' = d) := by
  by_cases hquote : c = '\''
  · subst hquote
    cases b with
    | false => exact ⟨true, d, true, scanFrom_open, id, fun _ => rfl⟩
    | true =>
      by_cases hnext : cs.head? = some '\''
      · -- the second quote of a doubled one is marked like an opening quote
        obtain ⟨rest, rfl⟩ : ∃ rest, cs = '\'' :: rest := List.head?_eq_some_iff.mp hnext
        exact ⟨true, d, false, by rw [scanFrom_doubled, scanFrom_open], id, fun _ => rfl⟩
      · exact ⟨true, d, false, scanFrom_close hnext, id, fun _ => rfl⟩
  · cases b with
    | false =>
      obtain ⟨d', hscan, hd'⟩ := @scanFrom_code c cs d hquote
      exact ⟨false, d', false, hscan, hd', fun h => absurd h Bool.false_ne_true⟩
    | true => exact ⟨true, d, true, scanFrom_char hquote, id, fun _ => rfl⟩

/-- **One depth and one mark a character.** -/
theorem scanFrom_length : (scanFrom d b cs).length = cs.length := by
  induction cs generalizing d b with
  | nil => cases b <;> rfl
  | cons c cs ih =>
    obtain ⟨mark, d', b', hscan, -⟩ := scanFrom_step d b c cs
    rw [hscan, List.length_cons, ih, List.length_cons]

/-- **No depth is negative.** -/
theorem scanFrom_depth_nonneg (hd : 0 ≤ d) : ∀ mark ∈ scanFrom d b cs, 0 ≤ mark.1 := by
  induction cs generalizing d b with
  | nil => cases b <;> exact fun mark h => absurd h List.not_mem_nil
  | cons c cs ih =>
    obtain ⟨mark, d', b', hscan, hd', -⟩ := scanFrom_step d b c cs
    rw [hscan]
    exact List.forall_mem_cons.mpr ⟨hd, ih (hd' hd)⟩

/-- **A character of a literal leaves the depth to the next one.** -/
theorem scanFrom_depth_literal {i : ℕ} {mark next : ℤ × Bool} (hmark : (scanFrom d b cs)[i]? = some mark)
    (hnext : (scanFrom d b cs)[i + 1]? = some next) (hstring : mark.2 = true) : next.1 = mark.1 := by
  induction cs generalizing d b i with
  | nil => cases b <;> exact absurd hmark (by simp [scanFrom])
  | cons c cs ih =>
    obtain ⟨m, d', b', hscan, -, hkept⟩ := scanFrom_step d b c cs
    rw [hscan, List.getElem?_cons_succ] at hnext
    cases i with
    | succ i =>
      rw [hscan, List.getElem?_cons_succ] at hmark
      exact ih hmark hnext
    | zero =>
      rw [hscan, List.getElem?_cons_zero, Option.some.injEq] at hmark
      subst hmark
      cases cs with
      | nil => cases b' <;> exact absurd hnext (by simp [scanFrom])
      | cons c' cs =>
        obtain ⟨m', d'', b'', hscan', -⟩ := scanFrom_step d' b' c' cs
        rw [hscan', List.getElem?_cons_zero, Option.some.injEq] at hnext
        rw [← hnext]
        exact hkept hstring

example : scanStructure ")('')')".toList =
    [(0, false), (0, false), (1, true), (1, true), (1, false), (0, true), (0, true)] := by
  decide

end LocalSqlAgent
