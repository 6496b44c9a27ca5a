import LocalSqlAgent.Security.CapTwice
import LocalSqlAgent.Security.CleanSql

/-! # The patterns of the cleaning

What `limitClause` and `topDistinct` match, and that no quote mark stands in a match or changes it.

* **`limitClause_separates`**, **`topDistinct_separates`**: a text is rewritten between its quote marks,
  piece by piece.
* **`lt_of_limitClause`**: a clause that is taken out takes an `i` with it; the fix of `TOP` and `DISTINCT`
  keeps the letters (`keeps_topDistinct`). -/

namespace LocalSqlAgent

variable {T : CharTable} {b : Option Char} {c p q : Char} {cs ps u w x y rest new digits : List Char}

/-! ## Letters -/

/-- A small letter of a pattern. -/
def isPatternLetter (p : Char) : Bool := 97 ≤ p.toNat && p.toNat ≤ 122

theorem isPatternLetter_bounds (hp : isPatternLetter p = true) : 97 ≤ p.toNat ∧ p.toNat ≤ 122 := by
  rwa [isPatternLetter, Bool.and_eq_true, decide_eq_true_eq, decide_eq_true_eq] at hp

/-- A character is one letter of a pattern at most. -/
theorem sameLetter_inj (hp : isPatternLetter p = true) (hq : isPatternLetter q = true)
    (h : sameLetter p c = true) (h' : sameLetter q c = true) : p = q := by
  have hp := isPatternLetter_bounds hp
  have hq := isPatternLetter_bounds hq
  have hfolded : ∀ {p c : Char}, p.toNat ≤ 122 → c = 'ſ' ∨ c = 'ı' ∨ c = 'İ' → c.toLower ≠ p := by
    rintro p c hp hc rfl
    rcases hc with rfl | rfl | rfl <;> exact absurd hp (by decide)
  simp only [sameLetter, Bool.or_eq_true, Bool.and_eq_true, beq_iff_eq] at h h'
  rcases h with (h | ⟨rfl, rfl⟩) | ⟨rfl, hc⟩
  · rcases h' with (h' | ⟨rfl, rfl⟩) | ⟨rfl, hc⟩
    · exact h.symm.trans h'
    · exact absurd h (hfolded hp.2 (.inl rfl))
    · exact absurd h (hfolded hp.2 (.inr hc))
  · rcases h' with (h' | ⟨rfl, -⟩) | ⟨-, hc⟩
    · exact absurd h' (hfolded hq.2 (.inl rfl))
    · rfl
    · exact absurd hc (by decide)
  · rcases h' with (h' | ⟨-, rfl⟩) | ⟨rfl, -⟩
    · exact absurd h' (hfolded hq.2 (.inr hc))
    · exact absurd hc (by decide)
    · rfl

/-- A word has the letters of its pattern. -/
theorem countP_spells (hw : Spells ps w) (hps : ps.all isPatternLetter = true)
    (hq : isPatternLetter q = true) : w.countP (sameLetter q) = ps.count q := by
  induction hw with
  | nil => rfl
  | @cons p c ps w hc hw ih =>
    rw [List.all_cons, Bool.and_eq_true] at hps
    rw [List.countP_cons, List.count_cons, ih hps.2]
    by_cases hpq : p = q
    · rw [← hpq, if_pos hc, beq_self_eq_true, if_pos rfl]
    · rw [if_neg fun h => hpq (sameLetter_inj hps.1 hq hc h), if_neg (by rwa [beq_iff_eq])]

/-- White space has no letters. -/
theorem countP_spaces (hx : ∀ c ∈ x, isPySpace c = true) (hq : isPatternLetter q = true) :
    x.countP (sameLetter q) = 0 := by
  refine List.countP_eq_zero.mpr fun c hc hletter => ?_
  have hword := isWord_of_sameLetter (T := .ascii) (isPatternLetter_bounds hq) hletter
  rw [CharTable.ascii.word_space c (hx c hc)] at hword
  cases hword

/-! ## What the patterns match -/

/-- The letters of `LIMIT` in the pattern. -/
def limitLetters : List Char := ['l', 'i', 'm', 'i', 't']

/-- The letters of `TOP` in the pattern. -/
def topLetters : List Char := ['t', 'o', 'p']

/-- **A limit**: the word, white space and digits, behind no word. -/
theorem limitDigits_eq_some (h : limitDigits T b cs = some (digits, rest)) :
    ∃ w sp, cs = w ++ (sp ++ (digits ++ rest)) ∧ Spells limitLetters w := by
  unfold limitDigits at h
  split at h
  · obtain ⟨cs', hcs', hnumber⟩ := Option.bind_eq_some_iff.mp h
    obtain ⟨cs'', hletters, hspaces⟩ := Option.bind_eq_some_iff.mp hcs'
    obtain ⟨w, rfl, hw⟩ := afterLetters_eq_some hletters
    obtain ⟨sp, rfl, -, -⟩ := afterSpaces_eq_some hspaces
    split at hnumber
    · cases hnumber
    · rw [Option.some.injEq, Prod.mk.injEq] at hnumber
      refine ⟨w, sp, ?_, hw⟩
      rw [← hnumber.1, ← hnumber.2, List.takeWhile_append_dropWhile]
  · cases h

theorem limitClause_eq_some (h : limitClause T b cs = some (new, rest)) :
    ∃ sp w sp' digits, cs = sp ++ (w ++ (sp' ++ (digits ++ rest))) ∧ Spells limitLetters w ∧ new = [] := by
  unfold limitClause at h
  split at h
  · rename_i digits rest' hdigits
    split at h
    · rw [Option.some.injEq, Prod.mk.injEq] at h
      obtain ⟨rfl, rfl⟩ := h
      obtain ⟨w, sp', hdrop, hw⟩ := limitDigits_eq_some hdigits
      refine ⟨cs.takeWhile isPySpace, w, sp', digits, ?_, hw, rfl⟩
      rw [← hdrop, List.takeWhile_append_dropWhile]
    · cases h
  · cases h

/-- The parts of a match of `_TOP_DISTINCT_RE`. -/
theorem topDistinct_eq_some (h : topDistinct T b cs = some (new, rest)) :
    ∃ s sp t sp' digits sp'' d,
      cs = s ++ (sp ++ (t ++ (sp' ++ (digits ++ (sp'' ++ (d ++ rest)))))) ∧ Spells selectLetters s ∧
        (sp ≠ [] ∧ ∀ c ∈ sp, isPySpace c = true) ∧ Spells topLetters t ∧ (∀ c ∈ sp', isPySpace c = true) ∧
        (∀ c ∈ digits, T.isDecimal c = true) ∧ (∀ c ∈ sp'', isPySpace c = true) ∧
        Spells distinctLetters d ∧ new = "SELECT DISTINCT TOP ".toList ++ digits := by
  unfold topDistinct at h
  obtain ⟨cs₄, h₄, hnumber⟩ := Option.bind_eq_some_iff.mp h
  obtain ⟨cs₃, h₃, hspaces'⟩ := Option.bind_eq_some_iff.mp h₄
  obtain ⟨cs₂, h₂, htop⟩ := Option.bind_eq_some_iff.mp h₃
  obtain ⟨cs₁, hselect, hspaces⟩ := Option.bind_eq_some_iff.mp h₂
  obtain ⟨s, rfl, hs⟩ := afterLetters_eq_some hselect
  obtain ⟨sp, rfl, hne, hsp⟩ := afterSpaces_eq_some hspaces
  obtain ⟨t, rfl, ht⟩ := afterLetters_eq_some htop
  obtain ⟨sp', rfl, -, hsp'⟩ := afterSpaces_eq_some hspaces'
  split at hnumber
  · cases hnumber
  · obtain ⟨behind, hbehind, heq⟩ := Option.map_eq_some_iff.mp hnumber
    obtain ⟨cs₅, hspaces'', hdistinct⟩ := Option.bind_eq_some_iff.mp hbehind
    obtain ⟨sp'', hdrop, -, hsp''⟩ := afterSpaces_eq_some hspaces''
    obtain ⟨d, rfl, hd⟩ := afterLetters_eq_some hdistinct
    rw [Prod.mk.injEq] at heq
    obtain ⟨rfl, rfl⟩ := heq
    refine ⟨s, sp, t, sp', cs₄.takeWhile T.isDecimal, sp'', d, ?_, hs, ⟨hne, hsp⟩, ht, hsp', ?_, hsp'', hd,
      rfl⟩
    · rw [← hdrop, List.takeWhile_append_dropWhile]
    · exact fun c hc => List.mem_takeWhile_imp hc

theorem spells_ne_nil (hps : ps ≠ []) (hw : Spells ps w) : w ≠ [] := by
  rintro rfl
  exact hps (List.forall₂_nil_right_iff.mp hw)

/-- A text without a limit has no clause to take out. -/
theorem no_limitClause (h : searchFrom (limitDigits T) b cs = none) :
    searchFrom (limitClause T) b cs = none := by
  have hhere : ∀ {b cs}, searchFrom (limitDigits T) b cs = none → limitClause T b cs = none := by
    intro b cs h
    cases hclause : limitClause T b cs with
    | none => rfl
    | some m =>
      have hfound : limitDigits T ((cs.takeWhile isPySpace).getLast?.or b) (cs.dropWhile isPySpace) ≠ none := by
        intro hnone
        rw [limitClause, hnone] at hclause
        cases hclause
      have hsome := searchFrom_ne_none hfound
      rw [List.takeWhile_append_dropWhile] at hsome
      exact absurd h hsome
  induction cs generalizing b with
  | nil => exact hhere h
  | cons c cs ih => exact searchFrom_cons_eq_none.mpr ⟨hhere h, ih (searchFrom_cons_eq_none.mp h).2⟩

theorem limitClause_takesSome : TakesSome (limitClause T) := by
  intro b cs new rest h
  obtain ⟨sp, w, sp', digits, rfl, hw, -⟩ := limitClause_eq_some h
  refine ⟨sp ++ (w ++ (sp' ++ digits)), by simp only [List.append_assoc], fun hnil => ?_⟩
  rw [List.append_eq_nil_iff, List.append_eq_nil_iff] at hnil
  exact spells_ne_nil (by decide) hw hnil.2.1

theorem topDistinct_takesSome : TakesSome (topDistinct T) := by
  intro b cs new rest h
  obtain ⟨s, sp, t, sp', digits, sp'', d, rfl, hs, -⟩ := topDistinct_eq_some h
  refine ⟨s ++ (sp ++ (t ++ (sp' ++ (digits ++ (sp'' ++ d))))), by simp only [List.append_assoc],
    fun hnil => ?_⟩
  exact spells_ne_nil (by decide) hs (List.append_eq_nil_iff.mp hnil).1

/-! ## The letters of a match -/

/-- **A clause that is taken out** takes an `i` with it. -/
theorem lt_of_limitClause (h : limitClause T b (w ++ rest) = some (new, rest)) :
    new.countP (sameLetter 'i') < w.countP (sameLetter 'i') := by
  obtain ⟨sp, v, sp', digits, hsplit, hv, rfl⟩ := limitClause_eq_some h
  have hw : w = sp ++ (v ++ (sp' ++ digits)) := by
    apply (List.append_left_inj rest).mp
    simpa only [List.append_assoc] using hsplit
  have hcount : v.countP (sameLetter 'i') = 2 := countP_spells hv (by decide) (by decide)
  rw [hw, List.countP_append, List.countP_append, hcount, List.countP_nil]
  omega

/-- **The fix of `TOP` and `DISTINCT`** keeps each letter that its words have as often as theirs. -/
theorem keeps_topDistinct (hq : isPatternLetter q = true)
    (hwords : ("SELECT DISTINCT TOP ".toList).countP (sameLetter q) =
      selectLetters.count q + (topLetters.count q + distinctLetters.count q))
    (h : topDistinct T b (w ++ rest) = some (new, rest)) :
    new.countP (sameLetter q) = w.countP (sameLetter q) := by
  obtain ⟨s, sp, t, sp', digits, sp'', d, hsplit, hs, ⟨-, hsp⟩, ht, hsp', -, hsp'', hd, rfl⟩ :=
    topDistinct_eq_some h
  have hw : w = s ++ (sp ++ (t ++ (sp' ++ (digits ++ (sp'' ++ d))))) := by
    apply (List.append_left_inj rest).mp
    simpa only [List.append_assoc] using hsplit
  rw [hw]
  simp only [List.countP_append]
  rw [hwords, countP_spells hs (by decide) hq, countP_spells ht (by decide) hq, countP_spells hd (by decide) hq,
    countP_spaces hsp hq, countP_spaces hsp' hq, countP_spaces hsp'' hq]
  omega

/-- **The first match of the fix** changes the text, whatever white space follows. -/
theorem topDistinct_ne (h : topDistinct T b (w ++ rest) = some (new, rest)) {y z : List Char} :
    new ++ y ≠ w ++ z := by
  obtain ⟨s, sp, t, sp', digits, sp'', d, hsplit, hs, ⟨hne, hsp⟩, ht, -, -, -, -, rfl⟩ :=
    topDistinct_eq_some h
  have hw : w = s ++ (sp ++ (t ++ (sp' ++ (digits ++ (sp'' ++ d))))) := by
    apply (List.append_left_inj rest).mp
    simpa only [List.append_assoc] using hsplit
  have hnew : "SELECT DISTINCT TOP ".toList =
      ['S', 'E', 'L', 'E', 'C', 'T'] ++ (' ' :: 'D' :: "ISTINCT TOP ".toList) := by decide
  have hlength : ['S', 'E', 'L', 'E', 'C', 'T'].length = s.length := hs.length_eq
  rw [hw, hnew]
  simp only [List.append_assoc]
  intro heq
  -- behind the six letters: a blank and a `D`, where the text has white space and more of it or a `T`
  obtain ⟨-, heq⟩ := List.append_inj heq hlength
  cases sp with
  | nil => exact hne rfl
  | cons a sp =>
    have htail := (List.cons.inj heq).2
    cases sp with
    | nil =>
      cases ht with
      | cons hc ht =>
        rw [← (List.cons.inj htail).1] at hc
        exact absurd hc (by decide)
    | cons a' sp =>
      have hspace := hsp a' (List.mem_cons_of_mem _ List.mem_cons_self)
      rw [← (List.cons.inj htail).1] at hspace
      exact absurd hspace (by decide)

/-! ## Quote marks -/

/-- The quotes of T-SQL. -/
def isQuoteMark (c : Char) : Bool := c == '\'' || c == '"' || c == '[' || c == ']'

/-- A quote mark is no white space and stands in no word. -/
theorem quoteMark_plain (hq : isQuoteMark q = true) : isPySpace q = false ∧ T.isWord q = false := by
  simp only [isQuoteMark, Bool.or_eq_true, beq_iff_eq] at hq
  rcases hq with ((rfl | rfl) | rfl) | rfl <;> exact ⟨rfl, T.word_ascii _ (by decide)⟩

theorem decimal_of_not_word (hq : T.isWord q = false) : T.isDecimal q = false := by
  cases hdecimal : T.isDecimal q with
  | false => rfl
  | true => rw [← hq, T.word_decimal q hdecimal]

theorem takeWhile_cut {f : Char → Bool} (hq : f q = false) : (x ++ q :: y).takeWhile f = x.takeWhile f := by
  induction x with
  | nil => rw [List.nil_append, List.takeWhile_cons, hq]; rfl
  | cons c x ih => rw [List.cons_append, List.takeWhile_cons, List.takeWhile_cons, ih]

theorem dropWhile_cut {f : Char → Bool} (hq : f q = false) :
    (x ++ q :: y).dropWhile f = x.dropWhile f ++ q :: y := by
  induction x with
  | nil => rw [List.nil_append, List.dropWhile_cons, hq]; rfl
  | cons c x ih =>
    rw [List.cons_append, List.dropWhile_cons, List.dropWhile_cons]
    split
    · exact ih
    · rfl

/-- The letters of a pattern do not reach over a quote mark. -/
theorem afterLetters_cut (hps : ps.all isPatternLetter = true) (hq : CharTable.ascii.isWord q = false) :
    afterLetters ps (x ++ q :: y) = (afterLetters ps x).map (· ++ q :: y) := by
  induction ps generalizing x with
  | nil => rfl
  | cons p ps ih =>
    rw [List.all_cons, Bool.and_eq_true] at hps
    cases x with
    | nil =>
      have hletter : ¬ sameLetter p q = true := fun h => by
        rw [isWord_of_sameLetter (isPatternLetter_bounds hps.1) h] at hq
        cases hq
      show (if sameLetter p q then afterLetters ps y else none) = none
      exact if_neg hletter
    | cons c x =>
      rw [List.cons_append, afterLetters, afterLetters]
      split
      · exact ih hps.2
      · rfl

theorem afterSpaces_cut (hq : isPySpace q = false) :
    afterSpaces (x ++ q :: y) = (afterSpaces x).map (· ++ q :: y) := by
  unfold afterSpaces
  rw [dropWhile_cut hq]
  cases x with
  | nil => rw [List.nil_append, List.head?_cons, Option.any_some, hq]; rfl
  | cons c x =>
    rw [List.cons_append, List.head?_cons, List.head?_cons]
    split <;> rfl

theorem wordBoundary_cut (hq : T.isWord q = false) : wordBoundary T u (x ++ q :: y) = wordBoundary T u x := by
  cases x with
  | nil => rw [wordBoundary, wordBoundary, List.nil_append, List.head?_cons, Option.any_some, hq]; rfl
  | cons c x => rfl

theorem limitDigits_cut (hq : isQuoteMark q = true) :
    limitDigits T b (x ++ q :: y) = (limitDigits T b x).map fun m => (m.1, m.2 ++ q :: y) := by
  obtain ⟨hspace, hword⟩ := @quoteMark_plain T q hq
  have hdecimal := decimal_of_not_word hword
  unfold limitDigits
  rw [wordBoundary_cut hword, afterLetters_cut (by decide) (quoteMark_plain hq).2]
  split
  · cases afterLetters ['l', 'i', 'm', 'i', 't'] x with
    | none => rfl
    | some x₁ =>
      rw [Option.map_some, Option.bind_some, Option.bind_some, afterSpaces_cut hspace]
      cases afterSpaces x₁ with
      | none => rfl
      | some x₂ =>
        rw [Option.map_some, Option.bind_some, Option.bind_some, takeWhile_cut hdecimal, dropWhile_cut hdecimal]
        split <;> rfl
  · rfl

/-- A limit is looked for behind a quote mark as at the start of a text. -/
theorem limitDigits_behind (hq : isQuoteMark q = true) : limitDigits T (some q) cs = limitDigits T none cs := by
  have hboundary : wordBoundary T (some q).toList cs = wordBoundary T (none : Option Char).toList cs := by
    simp only [wordBoundary, Option.toList_some, Option.toList_none, List.getLast?_singleton, List.getLast?_nil,
      Option.any_some, Option.any_none, (quoteMark_plain (T := T) hq).2]
  rw [limitDigits, limitDigits, hboundary]

/-- **No limit reaches over a quote mark.** -/
theorem limitClause_separates : Separates isQuoteMark (limitClause T) where
  cut := by
    intro b x q y hq
    obtain ⟨hspace, hword⟩ := @quoteMark_plain T q hq
    unfold limitClause
    rw [takeWhile_cut hspace, dropWhile_cut hspace, limitDigits_cut hq]
    cases limitDigits T ((x.takeWhile isPySpace).getLast?.or b) (x.dropWhile isPySpace) with
    | none => rfl
    | some m =>
      simp only [Option.map_some, wordBoundary_cut hword]
      split <;> rfl
  behind := by
    intro q cs hq
    unfold limitClause
    cases (cs.takeWhile isPySpace).getLast? with
    | none => rw [Option.none_or, Option.none_or, limitDigits_behind hq]
    | some c => rfl
  new := by
    intro b cs new rest h c hc
    obtain ⟨sp, w, sp', digits, -, -, rfl⟩ := limitClause_eq_some h
    exact absurd hc List.not_mem_nil

/-- **No `SELECT TOP n DISTINCT` reaches over a quote mark.** -/
theorem topDistinct_separates : Separates isQuoteMark (topDistinct T) where
  cut := by
    intro b x q y hq
    obtain ⟨hspace, hword⟩ := @quoteMark_plain T q hq
    have hdecimal := decimal_of_not_word hword
    have hletters := fun (ps x : List Char) (hps : ps.all isPatternLetter = true) =>
      @afterLetters_cut q ps x y hps (quoteMark_plain hq).2
    unfold topDistinct
    rw [hletters ['s', 'e', 'l', 'e', 'c', 't'] x (by decide)]
    cases afterLetters ['s', 'e', 'l', 'e', 'c', 't'] x with
    | none => rfl
    | some x₁ =>
      rw [Option.map_some, Option.bind_some, Option.bind_some, afterSpaces_cut hspace]
      cases afterSpaces x₁ with
      | none => rfl
      | some x₂ =>
        rw [Option.map_some, Option.bind_some, Option.bind_some, hletters ['t', 'o', 'p'] x₂ (by decide)]
        cases afterLetters ['t', 'o', 'p'] x₂ with
        | none => rfl
        | some x₃ =>
          rw [Option.map_some, Option.bind_some, Option.bind_some, afterSpaces_cut hspace]
          cases afterSpaces x₃ with
          | none => rfl
          | some x₄ =>
            rw [Option.map_some, Option.bind_some, Option.bind_some, takeWhile_cut hdecimal,
              dropWhile_cut hdecimal, afterSpaces_cut hspace]
            split
            · rfl
            · cases afterSpaces (x₄.dropWhile T.isDecimal) with
              | none => rfl
              | some x₅ =>
                rw [Option.map_some, Option.bind_some, Option.bind_some,
                  hletters ['d', 'i', 's', 't', 'i', 'n', 'c', 't'] x₅ (by decide)]
                cases afterLetters ['d', 'i', 's', 't', 'i', 'n', 'c', 't'] x₅ with
                | none => rfl
                | some x₆ => rfl
  behind := fun _ _ _ => rfl
  new := by
    intro b cs new rest h c hc
    obtain ⟨-, -, -, -, digits, -, -, -, -, -, -, -, hdigits, -, -, rfl⟩ := topDistinct_eq_some h
    rcases List.mem_append.mp hc with hc | hc
    · exact forall_mem_of_all (p := fun c => isQuoteMark c = false) (by decide) c hc
    · -- a digit is a word character, a quote mark is none
      cases hmark : isQuoteMark c with
      | false => rfl
      | true =>
        have hword := T.word_decimal c (hdigits c hc)
        rw [(quoteMark_plain hmark).2] at hword
        cases hword

end LocalSqlAgent
