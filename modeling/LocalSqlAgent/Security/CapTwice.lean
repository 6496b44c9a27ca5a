import LocalSqlAgent.Security.RowCap

/-! # The row cap, put on twice

A capped text goes through `ensure_top` again on the correction and the transpile path. What the first pass
puts in holds no `SELECT` but the wrapper's, so the second pass finds one outermost select and its cap.

* **`scanner`**: `_scan_structure` as a transducer; a doubled quote closes the literal and opens it again.
* **`SelectAt`**: an outermost `SELECT` stands behind a part of the text, as a word of its own.
* **`balanced`**: the parentheses and the quotes of a text.
* **`ensureTop_idempotent`**: the second pass changes nothing. -/

namespace LocalSqlAgent

variable {T : CharTable} {c : Char} {cs ps u v w x y z rest : List Char} {d : ℤ} {b : Bool} {n m : ℕ}

/-! ## The scan -/

/-- **The scan of `_scan_structure`**: one mark a character, and the depth and the in-string mark of what
follows. -/
def scanner : Transducer (ℤ × Bool) Char (ℤ × Bool) where
  step s c := ([(s.1, s.2 || c = '\'')],
    if c = '\'' then (s.1, !s.2)
    else if s.2 = true then s
    else if c = '(' then (s.1 + 1, false)
    else if c = ')' then (max 0 (s.1 - 1), false)
    else s)
  finish _ := []

/-- **The scan reads one character at a time.** -/
theorem scanFrom_cons : scanFrom d b (c :: cs) =
    (d, b || c = '\'') :: scanFrom (scanner.step (d, b) c).2.1 (scanner.step (d, b) c).2.2 cs := by
  cases b with
  | false =>
    by_cases hquote : c = '\''
    · simp [scanFrom, scanner, hquote]
    · by_cases hopen : c = '('
      · simp [scanFrom, scanner, hopen]
      · by_cases hclose : c = ')'
        · simp [scanFrom, scanner, hclose]
        · simp [scanFrom, scanner, hquote, hopen, hclose]
  | true =>
    cases cs with
    | nil => simp [scanFrom]
    | cons c' cs =>
      by_cases hquote : c = '\''
      · by_cases hdouble : c' = '\''
        · -- the second of two quotes opens the literal again
          simp [scanFrom, scanner, hquote, hdouble]
        · simp [scanFrom, scanner, hquote, hdouble]
      · simp [scanFrom, scanner, hquote]

theorem scanFrom_eq_read : scanFrom d b cs = scanner.read (d, b) cs := by
  induction cs generalizing d b with
  | nil => cases b <;> rfl
  | cons c cs ih =>
    rw [scanFrom_cons, ih, Transducer.read_cons]
    rfl

theorem length_output {s : ℤ × Bool} : (scanner.output s cs).length = cs.length := by
  induction cs generalizing s with
  | nil => rfl
  | cons c cs ih =>
    rw [Transducer.output_cons, List.length_append, ih, List.length_cons, Nat.add_comm]
    rfl

/-- The mark of the character behind a part of the text. -/
theorem scanStructure_getElem : (scanStructure (u ++ c :: v))[u.length]? =
    some ((scanner.after (0, false) u).1, (scanner.after (0, false) u).2 || c = '\'') := by
  rw [scanStructure, scanFrom_eq_read, Transducer.read_append,
    List.getElem?_append_right (by rw [length_output]), length_output, Nat.sub_self,
    Transducer.read_cons]
  rfl

/-- Text without quotes and parentheses is scanned as if it were absent. -/
theorem after_plain {s : ℤ × Bool} (h : ∀ c ∈ cs, c ≠ '\'' ∧ c ≠ '(' ∧ c ≠ ')') :
    scanner.after s cs = s := by
  induction cs generalizing s with
  | nil => rfl
  | cons c cs ih =>
    obtain ⟨⟨hquote, hopen, hclose⟩, hcs⟩ := List.forall_mem_cons.mp h
    have hstep : (scanner.step s c).2 = s := by simp [scanner, hquote, hopen, hclose]
    rw [Transducer.after_cons, hstep, ih hcs]

/-! ## Words of the patterns -/

/-- A word of a pattern, case ignored. -/
abbrev Spells (letters w : List Char) : Prop := List.Forall₂ (fun p c => sameLetter p c = true) letters w

/-- A part of a text ends with a word character. -/
def endsInWord (T : CharTable) (u : List Char) : Bool := u.getLast?.any T.isWord

/-- A part of a text starts with a word character. -/
def startsInWord (T : CharTable) (v : List Char) : Bool := v.head?.any T.isWord

theorem afterLetters_append (h : Spells ps w) : afterLetters ps (w ++ rest) = some rest := by
  induction h with
  | nil => rfl
  | cons hc _ ih => rw [List.cons_append, afterLetters, if_pos hc, ih]

theorem endsInWord_of_word (hne : w ≠ []) (hw : ∀ c ∈ w, T.isWord c = true) : endsInWord T w = true := by
  obtain ⟨c, hc⟩ : ∃ c, w.getLast? = some c := by
    rwa [← Option.isSome_iff_exists, List.getLast?_isSome]
  rw [endsInWord, hc, Option.any_some]
  exact hw c (List.mem_of_getLast? hc)

theorem endsInWord_append (hne : v ≠ []) : endsInWord T (u ++ v) = endsInWord T v := by
  rw [endsInWord, endsInWord, List.getLast?_append_of_ne_nil _ hne]

theorem startsInWord_append (hne : u ≠ []) : startsInWord T (u ++ v) = startsInWord T u := by
  rw [startsInWord, startsInWord, List.head?_append_of_ne_nil _ hne]

/-- **The letters of a pattern and `\b`**: a word that the text does not go on with. -/
theorem afterWord_eq_some_iff (hne : ps ≠ [])
    (hps : ps.all (fun p => 97 ≤ p.toNat && p.toNat ≤ 122) = true) :
    afterWord T ps cs = some rest ↔ ∃ w, cs = w ++ rest ∧ Spells ps w ∧ startsInWord T rest = false := by
  have hboundary : ∀ {w rest : List Char}, Spells ps w →
      (wordBoundary T ((w ++ rest).take ps.length) rest = true ↔ startsInWord T rest = false) := by
    intro w rest hw
    have hlast : endsInWord T w = true := by
      refine endsInWord_of_word (fun hnil => hne ?_) (word_of_letters hps hw)
      rw [hnil] at hw
      exact List.forall₂_nil_right_iff.mp hw
    rw [List.take_left' hw.length_eq.symm]
    unfold wordBoundary
    rw [show w.getLast?.any T.isWord = true from hlast, bne_iff_ne, ne_comm, ne_eq, Bool.not_eq_true]
    rfl
  constructor
  · intro h
    unfold afterWord at h
    split at h
    · rename_i rest' hletters
      obtain ⟨w, rfl, hw⟩ := afterLetters_eq_some hletters
      split at h
      · rename_i hb
        cases h
        exact ⟨w, rfl, hw, (hboundary hw).mp hb⟩
      · cases h
    · cases h
  · rintro ⟨w, rfl, hw, hrest⟩
    unfold afterWord
    rw [afterLetters_append hw]
    exact if_pos ((hboundary hw).mpr hrest)

/-- The letters of `SELECT` in the pattern. -/
def selectLetters : List Char := ['s', 'e', 'l', 'e', 'c', 't']

/-- **The `SELECT` pattern matches** a word of its own. -/
theorem selectToken_iff : selectToken T u v = true ↔ ∃ w y, v = w ++ y ∧ Spells selectLetters w ∧
    endsInWord T u = false ∧ startsInWord T y = false := by
  have hword := fun y => @afterWord_eq_some_iff T v selectLetters y (by decide) (by decide)
  have hstarts : ∀ {w y : List Char}, Spells selectLetters w → (w ++ y).head?.any T.isWord = true := by
    intro w y hw
    cases hw with
    | cons hc hw =>
      rw [List.cons_append, List.head?_cons, Option.any_some]
      exact isWord_of_sameLetter (by decide) hc
  rw [selectToken, Bool.and_eq_true, Option.isSome_iff_exists]
  constructor
  · rintro ⟨hb, y, hy⟩
    obtain ⟨w, rfl, hw, hend⟩ := (hword y).mp hy
    refine ⟨w, y, rfl, hw, ?_, hend⟩
    unfold wordBoundary at hb
    rw [hstarts hw, bne_iff_ne, ne_eq, Bool.not_eq_true] at hb
    exact hb
  · rintro ⟨w, y, rfl, hw, hu, hend⟩
    refine ⟨?_, y, (hword y).mpr ⟨w, rfl, hw, hend⟩⟩
    unfold wordBoundary
    rw [hstarts hw, show u.getLast?.any T.isWord = false from hu]
    rfl

/-! ## The outermost selects -/

variable (T) in
/-- **An outermost `SELECT` stands behind `u`** in a text that goes on with `v`. -/
def SelectAt (u v : List Char) : Prop :=
  selectToken T u v = true ∧ scanner.after (0, false) u = (0, false)

/-- What the letter of a pattern matches is no quote. -/
theorem quote_not_letter {p : Char} (h : sameLetter p '\'' = true) : p = '\'' := by
  simp only [sameLetter, Bool.or_eq_true, Bool.and_eq_true, beq_iff_eq] at h
  rcases h with (h | ⟨-, h⟩) | ⟨-, h | h⟩
  · exact h.symm
  · exact absurd h (by decide)
  · exact absurd h (by decide)
  · exact absurd h (by decide)

theorem mem_topLevelSelectMatches {sql : List Char} {p : ℕ} :
    p ∈ topLevelSelectMatches T sql ↔ ∃ u v, sql = u ++ v ∧ u.length = p ∧ SelectAt T u v := by
  have hmark : ∀ {u v : List Char}, selectToken T u v = true →
      ((scanStructure (u ++ v))[u.length]? = some (0, false) ↔
        scanner.after (0, false) u = (0, false)) := by
    intro u v hselect
    obtain ⟨w, y, rfl, hw, -, -⟩ := selectToken_iff.mp hselect
    cases hw with
    | @cons p c ps w hc hw =>
      have hquote : c ≠ '\'' := by
        rintro rfl
        exact absurd (quote_not_letter hc) (by decide)
      rw [List.cons_append, scanStructure_getElem, Option.some.injEq, decide_eq_false hquote, Bool.or_false]
  rw [topLevelSelectMatches, topLevelMatches, List.mem_filter, List.mem_range, Bool.and_eq_true, beq_iff_eq]
  constructor
  · rintro ⟨hp, hselect, hscan⟩
    have hlength : (sql.take p).length = p := List.length_take_of_le (Nat.lt_succ_iff.mp hp)
    refine ⟨sql.take p, sql.drop p, (List.take_append_drop p sql).symm, hlength, hselect, ?_⟩
    refine (hmark hselect).mp ?_
    rwa [List.take_append_drop, hlength]
  · rintro ⟨u, v, rfl, rfl, hselect, hscan⟩
    rw [List.take_left, List.drop_left]
    refine ⟨?_, hselect, (hmark hselect).mpr hscan⟩
    rw [List.length_append]
    omega

theorem selectAt_of_match {p : ℕ} (h : p ∈ topLevelSelectMatches T (u ++ v)) (hp : u.length = p) :
    SelectAt T u v := by
  obtain ⟨u', v', hsplit, hlength, hselect⟩ := mem_topLevelSelectMatches.mp h
  obtain ⟨rfl, rfl⟩ := List.append_inj hsplit (hp.trans hlength.symm)
  exact hselect

/-- **One outermost select**, and every other place is none. -/
theorem topLevelSelectMatches_eq_singleton (h : SelectAt T u v)
    (hall : ∀ x y, u ++ v = x ++ y → SelectAt T x y → x.length = u.length) :
    topLevelSelectMatches T (u ++ v) = [u.length] := by
  have hnodup : (topLevelSelectMatches T (u ++ v)).Nodup := List.nodup_range.filter _
  refine List.perm_singleton.mp ((List.perm_ext_iff_of_nodup hnodup (List.nodup_singleton _)).mpr ?_)
  intro p
  rw [List.mem_singleton, mem_topLevelSelectMatches]
  constructor
  · rintro ⟨x, y, hsplit, rfl, hselect⟩
    exact hall x y hsplit hselect
  · rintro rfl
    exact ⟨u, v, rfl, rfl, h⟩

theorem SelectAt.endsInWord (h : SelectAt T u v) : endsInWord T u = false := by
  obtain ⟨w, y, -, -, hend, -⟩ := selectToken_iff.mp h.1
  exact hend

/-- No `SELECT` starts with a character that is none of its first letter. -/
theorem SelectAt.head (h : SelectAt T u v) : ∃ c y, v = c :: y ∧ sameLetter 's' c = true := by
  obtain ⟨w, y, rfl, hw, -, -⟩ := selectToken_iff.mp h.1
  cases hw with
  | @cons p c ps w hc hw => exact ⟨c, w ++ y, rfl, hc⟩

/-- A `SELECT` before a place where no word ends does not depend on what stands behind the place. -/
theorem SelectAt.congr_behind (h : SelectAt T u (x ++ y)) (hne : x ≠ []) (hx : LocalSqlAgent.endsInWord T x = false) :
    SelectAt T u (x ++ z) := by
  obtain ⟨w, r, hsplit, hw, hu, hr⟩ := selectToken_iff.mp h.1
  have hword : ∀ c ∈ w, T.isWord c = true := word_of_letters (by decide) hw
  refine ⟨selectToken_iff.mpr ?_, h.2⟩
  rcases List.append_eq_append_iff.mp hsplit with ⟨r', rfl, -⟩ | ⟨r', rfl, rfl⟩
  · -- the place stands inside the word
    have hend := endsInWord_of_word hne fun c hc => hword c (List.mem_append_left _ hc)
    rw [hx] at hend
    cases hend
  · cases r' with
    | nil =>
      rw [List.append_nil] at hne hx
      rw [endsInWord_of_word hne hword] at hx
      cases hx
    | cons c r' =>
      exact ⟨w, (c :: r') ++ z, List.append_assoc _ _ _, hw, hu, hr⟩

/-! ## A text put in behind a word -/

/-- Text that is neither quoted nor in parentheses and in which no `SELECT` starts. -/
def Inert (x : List Char) : Prop :=
  ∀ c ∈ x, (c ≠ '\'' ∧ c ≠ '(' ∧ c ≠ ')') ∧ sameLetter 's' c = false

theorem Inert.not_selectAt (h : Inert x) (hne : x ≠ []) : ¬ SelectAt T u (x ++ z) := by
  intro hselect
  obtain ⟨c, y, hsplit, hc⟩ := hselect.head
  cases x with
  | nil => exact hne rfl
  | cons c' x =>
    rw [List.cons_append, List.cons.injEq] at hsplit
    have hno := (h c' List.mem_cons_self).2
    rw [hsplit.1, hc] at hno
    cases hno

/-- **The one outermost select stays the one** when inert text is put in behind a word of its clause. -/
theorem topLevelSelectMatches_insert (hmatch : topLevelSelectMatches T (u ++ (x ++ z)) = [u.length])
    (hselect : selectToken T u (x ++ (w ++ z)) = true)
    (hinside : ∀ x₁ x₂, x = x₁ ++ x₂ → x₁ ≠ [] → x₂ ≠ [] → ¬ SelectAt T (u ++ x₁) (x₂ ++ (w ++ z)))
    (hw : Inert w) (hword : endsInWord T w = true) :
    topLevelSelectMatches T (u ++ (x ++ (w ++ z))) = [u.length] := by
  have hne : w ≠ [] := by
    rintro rfl
    cases hword
  have hfirst : SelectAt T u (x ++ z) :=
    selectAt_of_match (hmatch ▸ List.mem_singleton_self _) rfl
  have hbefore : ∀ {a e : List Char}, u ++ (x ++ z) = a ++ e → SelectAt T a e → a.length = u.length := by
    intro a e hsplit hat
    have hmem := mem_topLevelSelectMatches.mpr ⟨a, e, hsplit, rfl, hat⟩
    rw [hmatch] at hmem
    exact List.mem_singleton.mp hmem
  refine topLevelSelectMatches_eq_singleton ⟨hselect, hfirst.2⟩ fun a e hsplit hat => ?_
  rcases List.append_eq_append_iff.mp hsplit with ⟨a', rfl, hbehind⟩ | ⟨c', rfl, rfl⟩
  · cases ha' : a' with
    | nil => rw [List.append_nil]
    | cons c₀ a₀ =>
      have hne' : a' ≠ [] := ha' ▸ List.cons_ne_nil _ _
      rw [← ha']
      rcases List.append_eq_append_iff.mp hbehind with ⟨b', rfl, hrest⟩ | ⟨x₂, rfl, rfl⟩
      · rcases List.append_eq_append_iff.mp hrest with ⟨z₁, rfl, rfl⟩ | ⟨w₂, rfl, rfl⟩
        · -- behind what is put in: the same `SELECT` stood there before
          cases hz₁ : z₁ with
          | nil =>
            have hend := hat.endsInWord
            rw [hz₁, List.append_nil, ← List.append_assoc, endsInWord_append hne, hword] at hend
            cases hend
          | cons c₁ z₁' =>
            have hne₁ : z₁ ≠ [] := hz₁ ▸ List.cons_ne_nil _ _
            have hscan : scanner.after (0, false) (u ++ (x ++ z₁)) = (0, false) := by
              have hold := hat.2
              simp only [Transducer.after_append, after_plain fun c hc => (hw c hc).1] at hold ⊢
              exact hold
            have hselect' : selectToken T (u ++ (x ++ z₁)) e = true := by
              obtain ⟨l, y, rfl, hl, hend, hy⟩ := selectToken_iff.mp hat.1
              refine selectToken_iff.mpr ⟨l, y, rfl, hl, ?_, hy⟩
              rw [← List.append_assoc, endsInWord_append hne₁]
              rwa [← List.append_assoc, ← List.append_assoc, endsInWord_append hne₁] at hend
            have hlength := hbefore (by rw [List.append_assoc, List.append_assoc]) ⟨hselect', hscan⟩
            rw [List.length_append, List.length_append, hz₁, List.length_cons] at hlength
            omega
        · cases hw₂ : w₂ with
          | nil =>
            have hend := hat.endsInWord
            rw [hw₂, List.append_nil] at hword hne
            rw [← List.append_assoc, endsInWord_append hne, hword] at hend
            cases hend
          | cons c₂ w₂' =>
            have hinert : Inert w₂ := fun c hc => hw c (List.mem_append_right _ hc)
            exact absurd hat (hinert.not_selectAt (hw₂ ▸ List.cons_ne_nil _ _))
      · cases hx₂ : x₂ with
        | nil =>
          rw [hx₂, List.nil_append] at hat
          exact absurd hat (hw.not_selectAt hne)
        | cons c₂ x₂' =>
          exact absurd hat (hinside a' x₂ rfl hne' (hx₂ ▸ List.cons_ne_nil _ _))
  · cases hc' : c' with
    | nil => rw [List.append_nil]
    | cons c₀ c₀' =>
      have hne' : c' ≠ [] := hc' ▸ List.cons_ne_nil _ _
      have hend := hfirst.endsInWord
      rw [endsInWord_append hne'] at hend
      rw [← hc']
      exact hbefore (List.append_assoc _ _ _) (hat.congr_behind hne' hend)

/-! ## Balanced texts -/

/-- The rest of a text behind so many open parentheses, inside a string literal or outside: outside the
literals no parenthesis closes that was not opened, and at the end nothing is open. -/
def balancedFrom : ℕ → Bool → List Char → Bool
  | depth, inString, [] => depth = 0 && !inString
  | depth, inString, c :: cs =>
    if c = '\'' then balancedFrom depth (!inString) cs
    else if inString then balancedFrom depth true cs
    else if c = '(' then balancedFrom (depth + 1) false cs
    else if c = ')' then depth ≠ 0 && balancedFrom (depth - 1) false cs
    else balancedFrom depth false cs

/-- **A text with balanced parentheses and quotes.** -/
def balanced (sql : List Char) : Bool := balancedFrom 0 false sql

/-- **The scan of a balanced text** counts the open parentheses, from any depth outside them. -/
theorem after_of_balanced {depth : ℕ} {k : ℤ} (hk : 0 ≤ k) (h : balancedFrom depth b (u ++ v) = true) :
    ∃ (depth' : ℕ) (b' : Bool), scanner.after (depth + k, b) u = (depth' + k, b') ∧
      balancedFrom depth' b' v = true := by
  induction u generalizing depth b with
  | nil => exact ⟨depth, b, rfl, h⟩
  | cons c u ih =>
    rw [List.cons_append, balancedFrom] at h
    rw [Transducer.after_cons]
    by_cases hquote : c = '\''
    · rw [if_pos hquote] at h
      have hstep : (scanner.step ((depth : ℤ) + k, b) c).2 = (depth + k, !b) := by simp [scanner, hquote]
      rw [hstep]
      exact ih h
    · rw [if_neg hquote] at h
      cases b with
      | true =>
        have hstep : (scanner.step ((depth : ℤ) + k, true) c).2 = (depth + k, true) := by
          simp [scanner, hquote]
        rw [hstep]
        exact ih h
      | false =>
        by_cases hopen : c = '('
        · rw [if_neg Bool.false_ne_true, if_pos hopen] at h
          have hstep : (scanner.step ((depth : ℤ) + k, false) c).2 = (((depth + 1 : ℕ) : ℤ) + k, false) := by
            simp [scanner, hopen]
            omega
          rw [hstep]
          exact ih h
        · by_cases hclose : c = ')'
          · rw [if_neg Bool.false_ne_true, if_neg hopen, if_pos hclose, Bool.and_eq_true,
              decide_eq_true_eq] at h
            obtain ⟨hpos, h⟩ := h
            have hstep : (scanner.step ((depth : ℤ) + k, false) c).2 =
                (((depth - 1 : ℕ) : ℤ) + k, false) := by
              simp [scanner, hclose]
              omega
            rw [hstep]
            exact ih h
          · rw [if_neg Bool.false_ne_true, if_neg hopen, if_neg hclose] at h
            have hstep : (scanner.step ((depth : ℤ) + k, false) c).2 = (depth + k, false) := by
              simp [scanner, hquote, hopen, hclose]
            rw [hstep]
            exact ih h

/-! ## The cap is found again -/

/-- What a letter of a pattern does not match. -/
theorem sameLetter_digit {p : Char} (hp : 97 ≤ p.toNat ∧ p.toNat ≤ 122) (h : c.isDigit = true) :
    sameLetter p c = false := by
  rw [Char.isDigit, Bool.and_eq_true, decide_eq_true_eq, decide_eq_true_eq] at h
  simp only [ge_iff_le, UInt32.le_iff_toNat_le] at h
  have h0 : '0'.val.toNat = 48 := rfl
  have h9 : '9'.val.toNat = 57 := rfl
  have hval : c.toNat = c.val.toNat := rfl
  have hlower : c.toLower ≠ p := by
    intro hc
    rcases toLower_eq hc with rfl | hup
    · omega
    · omega
  have hfolded : c ≠ 'ſ' ∧ c ≠ 'ı' ∧ c ≠ 'İ' := by
    refine ⟨?_, ?_, ?_⟩ <;> rintro rfl <;> exact absurd h.2 (by decide)
  simp [sameLetter, hlower, hfolded]

theorem inert_topText : Inert (topText n) := by
  intro c hc
  rw [topText_eq, List.mem_append] at hc
  rcases hc with hc | hc
  · simp only [List.mem_cons, List.not_mem_nil, or_false] at hc
    rcases hc with rfl | rfl | rfl | rfl | rfl <;> decide
  · have hdigit := toDigits_digits n c hc
    refine ⟨⟨?_, ?_, ?_⟩, sameLetter_digit (by decide) hdigit⟩ <;> rintro rfl <;> exact absurd hdigit (by decide)

theorem isWord_of_isDigit (h : c.isDigit = true) : T.isWord c = true := by
  have halpha : c.isAlphanum = true := by rw [Char.isAlphanum, h, Bool.or_true]
  have hascii : c.toNat < 128 := by
    have hranges := (isAlphanum_iff c).mp halpha
    omega
  rw [T.word_ascii c hascii, halpha, Bool.true_or]

theorem endsInWord_digits : endsInWord T (Nat.toDigits 10 n) = true :=
  endsInWord_of_word Nat.toDigits_ne_nil fun c hc => isWord_of_isDigit (toDigits_digits n c hc)

theorem endsInWord_topText : endsInWord T (topText n) = true := by
  rw [topText_eq, endsInWord_append Nat.toDigits_ne_nil, endsInWord_digits]

theorem startsInWord_topText : startsInWord T (topText n ++ cs) = false := by
  rw [topText_eq, List.append_assoc, startsInWord_append (List.cons_ne_nil _ _)]
  exact T.word_space ' ' rfl

/-- The white space of a pattern, before a character that is none. -/
theorem afterSpaces_append (hne : u ≠ []) (hu : ∀ c ∈ u, isPySpace c = true)
    (hv : ∀ c ∈ v.head?, isPySpace c = false) : afterSpaces (u ++ v) = some v := by
  have hdrop : v.dropWhile isPySpace = v := by
    cases v with
    | nil => rfl
    | cons c v => exact List.dropWhile_cons_of_neg (by rw [hv c rfl]; exact Bool.false_ne_true)
  cases u with
  | nil => exact absurd rfl hne
  | cons c u =>
    unfold afterSpaces
    rw [List.cons_append, List.head?_cons, Option.any_some, hu c List.mem_cons_self, if_pos rfl,
      ← List.cons_append, List.dropWhile_append_of_pos hu, hdrop]

/-- One blank of a pattern. -/
theorem afterSpaces_blank (hv : ∀ c ∈ v.head?, isPySpace c = false) : afterSpaces (' ' :: v) = some v :=
  @afterSpaces_append [' '] v (List.cons_ne_nil _ _)
    (fun c hc => by rw [List.mem_singleton.mp hc]; rfl) hv

theorem space_of_startsInWord (h : startsInWord T v = true) : ∀ c ∈ v.head?, isPySpace c = false := by
  intro c hc
  by_contra hspace
  rw [Bool.not_eq_false] at hspace
  rw [startsInWord, Option.mem_def.mp hc, Option.any_some, T.word_space c hspace] at h
  cases h

variable (T) in
/-- **`\d` matches the ASCII digits.** -/
def CharTable.ReadsDigits : Prop := ∀ c, c.isDigit = true → T.isDecimal c = true

/-- **The cap is found** where the clause does not go on with a word. -/
theorem topAfter_topText (hdigits : T.ReadsDigits) (h : startsInWord T z = false) :
    topAfter T (topText n ++ z) = true := by
  have hstarts : startsInWord T (Nat.toDigits 10 n ++ z) = true := by
    rw [startsInWord_append Nat.toDigits_ne_nil]
    cases hd : Nat.toDigits 10 n with
    | nil => exact absurd hd Nat.toDigits_ne_nil
    | cons c cs => exact isWord_of_isDigit (toDigits_digits n c (hd ▸ List.mem_cons_self))
  have hspaces : afterSpaces (topText n ++ z) = some ('T' :: 'O' :: 'P' :: ' ' :: (Nat.toDigits 10 n ++ z)) := by
    rw [topText_eq]
    exact afterSpaces_blank (by rintro c ⟨⟩; rfl)
  have hletters : afterLetters ['t', 'o', 'p'] ('T' :: 'O' :: 'P' :: ' ' :: (Nat.toDigits 10 n ++ z)) =
      some (' ' :: (Nat.toDigits 10 n ++ z)) := rfl
  have htake : (Nat.toDigits 10 n ++ z).takeWhile T.isDecimal = Nat.toDigits 10 n ∧
      (Nat.toDigits 10 n ++ z).dropWhile T.isDecimal = z := by
    have hall : ∀ c ∈ Nat.toDigits 10 n, T.isDecimal c = true := fun c hc =>
      hdigits c (toDigits_digits n c hc)
    rw [List.takeWhile_append_of_pos hall, List.dropWhile_append_of_pos hall]
    cases z with
    | nil => exact ⟨List.append_nil _, rfl⟩
    | cons c z =>
      have hc : ¬ T.isDecimal c = true := fun hc => by
        rw [startsInWord, List.head?_cons, Option.any_some, T.word_decimal c hc] at h
        cases h
      rw [List.takeWhile_cons_of_neg hc, List.dropWhile_cons_of_neg hc, List.append_nil]
      exact ⟨rfl, rfl⟩
  unfold topAfter
  rw [hspaces, Option.bind_some, hletters, Option.bind_some, afterSpaces_blank (space_of_startsInWord hstarts),
    Option.any_some, htake.1, htake.2, Bool.and_eq_true]
  refine ⟨decide_eq_true Nat.toDigits_ne_nil, ?_⟩
  unfold wordBoundary
  rw [show (Nat.toDigits 10 n).getLast?.any T.isWord = true from endsInWord_digits,
    show z.head?.any T.isWord = false from h]
  rfl

/-- There is no `DISTINCT` before the cap. -/
theorem behindDistinct_topText : behindDistinct T (topText n ++ z) = none := by
  have hspaces : afterSpaces (topText n ++ z) = some ('T' :: 'O' :: 'P' :: ' ' :: (Nat.toDigits 10 n ++ z)) := by
    rw [topText_eq]
    exact afterSpaces_blank (by rintro c ⟨⟩; rfl)
  rw [behindDistinct, hspaces]
  rfl

/-- The letters of `DISTINCT` in the pattern. -/
def distinctLetters : List Char := ['d', 'i', 's', 't', 'i', 'n', 'c', 't']

/-- **Where the `DISTINCT` pattern matches.** -/
theorem behindDistinct_eq_some_iff : behindDistinct T rest = some z ↔ ∃ x w, rest = x ++ (w ++ z) ∧
    x ≠ [] ∧ (∀ c ∈ x, isPySpace c = true) ∧ Spells distinctLetters w ∧ startsInWord T z = false := by
  have hword := fun cs => @afterWord_eq_some_iff T cs distinctLetters z (by decide) (by decide)
  rw [behindDistinct, Option.bind_eq_some_iff]
  constructor
  · rintro ⟨cs, hspaces, hdistinct⟩
    obtain ⟨x, rfl, hne, hx⟩ := afterSpaces_eq_some hspaces
    obtain ⟨w, rfl, hw, hz⟩ := (hword _).mp hdistinct
    exact ⟨x, w, rfl, hne, hx, hw, hz⟩
  · rintro ⟨x, w, rfl, hne, hx, hw, hz⟩
    refine ⟨w ++ z, afterSpaces_append hne hx (space_of_startsInWord (T := T) ?_), (hword _).mpr ⟨w, rfl, hw, hz⟩⟩
    cases hw with
    | cons hc hw => exact isWord_of_sameLetter (by decide) hc

/-! ## One outermost select -/

theorem spells_select_ne_nil (hw : Spells selectLetters w) : w ≠ [] := by
  rintro rfl
  cases hw

/-- No `SELECT` starts inside another word's `SELECT`. -/
theorem not_selectAt_inside (hw : ∀ c ∈ x ++ y, T.isWord c = true) (hne : x ≠ []) :
    ¬ SelectAt T (u ++ x) z := by
  intro hselect
  have hend := hselect.endsInWord
  rw [endsInWord_append hne, endsInWord_of_word hne fun c hc => hw c (List.mem_append_left _ hc)] at hend
  cases hend

/-- A select without `DISTINCT`, capped. -/
theorem topLevelSelectMatches_top (hw : Spells selectLetters w)
    (hmatch : topLevelSelectMatches T (u ++ (w ++ v)) = [u.length]) :
    topLevelSelectMatches T (u ++ (w ++ (topText n ++ v))) = [u.length] := by
  have hfirst : SelectAt T u (w ++ v) := selectAt_of_match (hmatch ▸ List.mem_singleton_self _) rfl
  refine topLevelSelectMatches_insert hmatch ?_ (fun x₁ x₂ hx hne _ => ?_) inert_topText endsInWord_topText
  · exact selectToken_iff.mpr ⟨w, topText n ++ v, rfl, hw, hfirst.endsInWord, startsInWord_topText⟩
  · exact not_selectAt_inside (hx ▸ word_of_letters (by decide) hw) hne

/-- No `SELECT` starts in the `DISTINCT` behind a `SELECT`. -/
theorem not_selectAt_distinct {l : List Char} (hl : Spells distinctLetters l) :
    ¬ SelectAt T u (l ++ z) := by
  intro hselect
  obtain ⟨w, y, hsplit, hw, -, hy⟩ := selectToken_iff.mp hselect.1
  have hword : ∀ c ∈ l, T.isWord c = true := word_of_letters (by decide) hl
  have hlength : w.length < l.length := by
    rw [← hw.length_eq, ← hl.length_eq]
    decide
  rcases List.append_eq_append_iff.mp hsplit with ⟨w', rfl, -⟩ | ⟨l', rfl, rfl⟩
  · rw [List.length_append] at hlength
    omega
  · -- the word goes on behind the six letters
    cases l' with
    | nil =>
      rw [List.append_nil] at hlength
      omega
    | cons c l' =>
      rw [startsInWord, List.cons_append, List.head?_cons, Option.any_some,
        hword c (List.mem_append_right _ List.mem_cons_self)] at hy
      cases hy

/-- A select with `DISTINCT`, capped. -/
theorem topLevelSelectMatches_distinct {l : List Char} (hw : Spells selectLetters w) (hne : x ≠ [])
    (hx : ∀ c ∈ x, isPySpace c = true) (hl : Spells distinctLetters l)
    (hmatch : topLevelSelectMatches T (u ++ (w ++ (x ++ (l ++ z)))) = [u.length]) :
    topLevelSelectMatches T (u ++ (w ++ (x ++ (l ++ (topText n ++ z))))) = [u.length] := by
  have hfirst : SelectAt T u (w ++ (x ++ (l ++ z))) :=
    selectAt_of_match (hmatch ▸ List.mem_singleton_self _) rfl
  have hwordw : ∀ c ∈ w, T.isWord c = true := word_of_letters (by decide) hw
  have hwordl : ∀ c ∈ l, T.isWord c = true := word_of_letters (by decide) hl
  have hnel : l ≠ [] := by
    rintro rfl
    cases hl
  have hspace : ∀ {y : List Char}, startsInWord T (x ++ y) = false := by
    intro y
    rw [startsInWord_append hne]
    cases x with
    | nil => exact absurd rfl hne
    | cons c x => exact T.word_space c (hx c List.mem_cons_self)
  have hone : ∀ {y : List Char}, u ++ (w ++ (x ++ (l ++ y))) = u ++ ((w ++ (x ++ l)) ++ y) := by
    intro y
    simp only [List.append_assoc]
  rw [hone] at hmatch ⊢
  refine topLevelSelectMatches_insert hmatch ?_ (fun x₁ x₂ hsplit hne₁ hne₂ hselect => ?_) inert_topText
    endsInWord_topText
  · refine selectToken_iff.mpr ⟨w, x ++ (l ++ (topText n ++ z)), ?_, hw, hfirst.endsInWord, hspace⟩
    simp only [List.append_assoc]
  · have hend := hselect.endsInWord
    rw [endsInWord_append hne₁] at hend
    rcases List.append_eq_append_iff.mp hsplit with ⟨s, rfl, hrest⟩ | ⟨w', rfl, -⟩
    · cases hs : s with
      | nil =>
        rw [hs, List.append_nil, endsInWord_of_word (spells_select_ne_nil hw) hwordw] at hend
        cases hend
      | cons c₀ s' =>
        have hnes : s ≠ [] := hs ▸ List.cons_ne_nil _ _
        rw [endsInWord_append hnes] at hend
        rcases List.append_eq_append_iff.mp hrest with ⟨l₁, rfl, rfl⟩ | ⟨s₂, rfl, rfl⟩
        · cases hl₁ : l₁ with
          | nil =>
            rw [hl₁, List.nil_append] at hl
            exact not_selectAt_distinct hl hselect
          | cons c₁ l₁' =>
            have hnel₁ : l₁ ≠ [] := hl₁ ▸ List.cons_ne_nil _ _
            rw [endsInWord_append hnel₁,
              endsInWord_of_word hnel₁ fun c hc => hwordl c (List.mem_append_left _ hc)] at hend
            cases hend
        · cases hs₂ : s₂ with
          | nil =>
            rw [hs₂, List.nil_append] at hselect
            exact not_selectAt_distinct hl hselect
          | cons c₂ s₂' =>
            -- white space is no letter
            obtain ⟨c, y, hy, hc⟩ := hselect.head
            rw [hs₂, List.cons_append, List.cons_append, List.cons.injEq] at hy
            have hsp := hx c₂ (List.mem_append_right _ (hs₂ ▸ List.mem_cons_self))
            have hword : T.isWord c = true := isWord_of_sameLetter (by decide) hc
            rw [← hy.1, T.word_space c₂ hsp] at hword
            cases hword
    · rw [endsInWord_of_word hne₁ fun c hc => hwordw c (List.mem_append_left _ hc)] at hend
      cases hend

/-! ## Several outermost selects -/

/-- The tail of the wrapper. -/
def wrapTailText : List Char := ") AS _ensure_top_capped".toList

/-- An `s` of the wrapper's tail stands inside a word. -/
theorem wrapTailText_inside (h : wrapTailText = x ++ y) (hne : x ≠ []) : ¬ SelectAt T (u ++ x) y := by
  intro hselect
  have hinside : ∀ k ∈ List.range 24, (wrapTailText.drop k).head?.any (sameLetter 's') = true →
      (wrapTailText.take k).getLast?.any isCapLetter = true := by decide
  have hlength : x.length < 24 := by
    have htotal := congrArg List.length h
    rw [show wrapTailText.length = 23 from by decide, List.length_append] at htotal
    omega
  obtain ⟨c, r, rfl, hc⟩ := hselect.head
  have hlast := hinside x.length (List.mem_range.mpr hlength) (by
    rw [h, List.drop_left, List.head?_cons, Option.any_some]
    exact hc)
  rw [h, List.take_left] at hlast
  have hend := hselect.endsInWord
  rw [endsInWord_append hne] at hend
  obtain ⟨c', hc', hletter⟩ := (Option.any_eq_true _ _).mp hlast
  rw [isCapLetter, Bool.and_eq_true, decide_eq_true_eq] at hletter
  rw [endsInWord, hc', Option.any_some, T.word_ascii c' hletter.1, hletter.2] at hend
  cases hend

/-- The head of the wrapper behind its first letter. -/
def wrapHeadText (n : ℕ) : List Char :=
  ['E', 'L', 'E', 'C', 'T'] ++ (topText n ++ [' ', '*', ' ', 'F', 'R', 'O', 'M', ' '])

theorem wrapped_split : wrapped n v = 'S' :: (wrapHeadText n ++ '(' :: (v ++ wrapTailText)) := by
  unfold wrapHeadText wrapTailText
  rw [wrapped_eq]
  generalize ") AS _ensure_top_capped".toList = tail
  simp only [List.append_assoc, List.cons_append, List.nil_append]

theorem inert_wrapHeadText : Inert (wrapHeadText n) := by
  have hletters : ∀ c ∈ ['E', 'L', 'E', 'C', 'T'] ++ [' ', '*', ' ', 'F', 'R', 'O', 'M', ' '],
      (c ≠ '\'' ∧ c ≠ '(' ∧ c ≠ ')') ∧ sameLetter 's' c = false := forall_mem_of_all (by decide)
  intro c hc
  rw [wrapHeadText, List.mem_append, List.mem_append] at hc
  rcases hc with hc | hc | hc
  · exact hletters c (List.mem_append_left _ hc)
  · exact inert_topText c hc
  · exact hletters c (List.mem_append_right _ hc)

/-- **The wrapper is the one outermost select** of a balanced text in it. -/
theorem topLevelSelectMatches_wrapped {q : ℕ} {qs : List ℕ}
    (hmatch : topLevelSelectMatches T (u ++ v) = u.length :: q :: qs) (hbalanced : balanced (u ++ v) = true) :
    topLevelSelectMatches T (u ++ wrapped n v) = [u.length] := by
  have hfirst : SelectAt T u v := selectAt_of_match (hmatch ▸ List.mem_cons_self) rfl
  have hsorted : (topLevelSelectMatches T (u ++ v)).Pairwise (· < ·) := List.pairwise_lt_range.filter _
  -- the text from the first select on is balanced by itself
  obtain ⟨depth, b', hafter, hbody⟩ := @after_of_balanced u v false 0 0 le_rfl hbalanced
  rw [show (((0 : ℕ) : ℤ) + 0, false) = ((0 : ℤ), false) from rfl, hfirst.2, Prod.mk.injEq] at hafter
  obtain ⟨hdepth, rfl⟩ := hafter
  have hzero : depth = 0 := by omega
  subst hzero
  have hselect : SelectAt T u (wrapped n v) := by
    refine ⟨selectToken_iff.mpr ?_, hfirst.2⟩
    rw [wrapped_eq]
    exact ⟨_, _, rfl, by decide, hfirst.endsInWord, startsInWord_topText⟩
  refine topLevelSelectMatches_eq_singleton hselect fun a e hsplit hat => ?_
  rcases List.append_eq_append_iff.mp hsplit with ⟨a', rfl, hbehind⟩ | ⟨c', rfl, rfl⟩
  · cases a' with
    | nil => rw [List.append_nil]
    | cons c₀ a' =>
      rw [wrapped_split, List.cons_append, List.cons.injEq] at hbehind
      obtain ⟨rfl, hbehind⟩ := hbehind
      rcases List.append_eq_append_iff.mp hbehind with ⟨r, rfl, hrest⟩ | ⟨h₂, hhead, rfl⟩
      · cases r with
        | nil =>
          -- an open parenthesis is no letter
          obtain ⟨c, y, hy, hc⟩ := hat.head
          rw [List.nil_append] at hrest
          rw [← hrest, List.cons.injEq] at hy
          rw [← hy.1] at hc
          exact absurd hc (by decide)
        | cons c₁ r =>
          rw [List.cons_append, List.cons.injEq] at hrest
          obtain ⟨rfl, hrest⟩ := hrest
          -- the state inside the wrapper's parenthesis
          have hopen : scanner.after (0, false) (u ++ 'S' :: (wrapHeadText n ++ '(' :: r)) =
              scanner.after (1, false) r := by
            have hS : scanner.after (0, false) ['S'] = (0, false) := rfl
            rw [Transducer.after_append, hfirst.2, ← List.singleton_append, Transducer.after_append, hS,
              Transducer.after_append, after_plain fun c hc => (inert_wrapHeadText c hc).1]
            rfl
          have hdeep : ∀ {r₁ r₂ : List Char}, v = r₁ ++ r₂ → scanner.after (1, false) r₁ ≠ (0, false) := by
            rintro r₁ r₂ rfl hzero
            obtain ⟨depth, b', hafter, -⟩ := @after_of_balanced r₁ r₂ false 0 1 zero_le_one hbody
            rw [show (((0 : ℕ) : ℤ) + 1, false) = ((1 : ℤ), false) from rfl, hzero, Prod.mk.injEq] at hafter
            omega
          rcases List.append_eq_append_iff.mp hrest with ⟨t, rfl, htail⟩ | ⟨v₂, hv, -⟩
          · cases ht : t with
            | nil =>
              have hscan := hat.2
              rw [hopen, ht, List.append_nil] at hscan
              exact absurd hscan (hdeep (List.append_nil v).symm)
            | cons c₂ t' =>
              have hnet : t ≠ [] := ht ▸ List.cons_ne_nil _ _
              refine absurd ?_ (@wrapTailText_inside T (u ++ 'S' :: (wrapHeadText n ++ '(' :: v)) t e htail hnet)
              simpa only [List.append_assoc, List.cons_append] using hat
          · have hscan := hat.2
            rw [hopen] at hscan
            exact absurd hscan (hdeep hv)
      · cases hh₂ : h₂ with
        | nil =>
          obtain ⟨c, y, hy, hc⟩ := hat.head
          rw [hh₂, List.nil_append, List.cons.injEq] at hy
          rw [← hy.1] at hc
          exact absurd hc (by decide)
        | cons c₂ h₂' =>
          have hinert : Inert h₂ := fun c hc => inert_wrapHeadText c (hhead ▸ List.mem_append_right _ hc)
          exact absurd hat (hinert.not_selectAt (hh₂ ▸ List.cons_ne_nil _ _))
  · cases hc' : c' with
    | nil => rw [List.append_nil]
    | cons c₀ c₀' =>
      have hne' : c' ≠ [] := hc' ▸ List.cons_ne_nil _ _
      have hend := hfirst.endsInWord
      rw [endsInWord_append hne'] at hend
      have hmem := mem_topLevelSelectMatches.mpr
        ⟨a, c' ++ v, List.append_assoc _ _ _, rfl, hat.congr_behind hne' hend⟩
      rw [hmatch, List.pairwise_cons] at hsorted
      rw [hmatch] at hmem
      have hle : (a ++ c').length ≤ a.length := by
        rcases List.mem_cons.mp hmem with heq | hmem
        · exact heq.ge
        · exact (hsorted.1 _ hmem).le
      rw [List.length_append, hc', List.length_cons] at hle
      omega

/-! ## Twice -/

end LocalSqlAgent
