import LocalSqlAgent.Security.EnsureTop
import LocalSqlAgent.Security.ValidateSql
import LocalSqlAgent.Tsql.Outline
import Mathlib.Data.List.Forall2

/-! # What the row cap makes of a T-SQL statement

`ensure_top` against T-SQL's own reading of the text it is given and of the text it returns.

* **`KeepsCap`**: the promise. What is returned is a legal statement whose outermost query returns a fixed
  number of rows at most, and what counts as `SELECT` or `TOP` is one.
* **`TakesCap`**: what a statement is like that takes its cap, by the number of outermost selects.
* **`keepsCap_iff`**: where the scan finds the outermost selects, the promise is kept for those statements
  and no others. -/

namespace LocalSqlAgent

open Tsql

variable {T : CharTable} {c p : Char} {cs ps u v w rest behind : List Char} {d : ℤ} {n : ℕ}

/-! ## The patterns on the text -/

/-- What a small letter of a pattern matches is a word character. -/
theorem isWord_of_sameLetter (hp : 97 ≤ p.toNat ∧ p.toNat ≤ 122) (h : sameLetter p c = true) :
    T.isWord c = true := by
  obtain ⟨hs, hi, hI⟩ := T.word_folded
  simp only [sameLetter, Bool.or_eq_true, Bool.and_eq_true, beq_iff_eq] at h
  rcases h with (h | ⟨-, rfl⟩) | ⟨-, rfl | rfl⟩
  · have halpha : c.toNat < 128 ∧ c.isAlphanum = true := by
      rw [isAlphanum_iff]
      rcases toLower_eq h with rfl | hup
      · omega
      · omega
    rw [T.word_ascii c halpha.1, halpha.2, Bool.true_or]
  · exact hs
  · exact hi
  · exact hI

theorem isIdent_of_word (h : T.isWord c = true) : isIdent T c = true := by
  rw [isIdent, h, Bool.true_or]

/-- The letters of a pattern and what follows the match. -/
theorem afterLetters_eq_some (h : afterLetters ps cs = some rest) :
    ∃ w, cs = w ++ rest ∧ List.Forall₂ (fun p c => sameLetter p c = true) ps w := by
  induction ps generalizing cs with
  | nil =>
    cases h
    exact ⟨[], rfl, .nil⟩
  | cons p ps ih =>
    cases cs with
    | nil => cases h
    | cons c cs =>
      rw [afterLetters] at h
      split at h
      · rename_i hc
        obtain ⟨w, rfl, hw⟩ := ih h
        exact ⟨c :: w, rfl, .cons hc hw⟩
      · cases h

/-- The white space of a pattern and what follows the match. -/
theorem afterSpaces_eq_some (h : afterSpaces cs = some rest) :
    ∃ sp, cs = sp ++ rest ∧ sp ≠ [] ∧ ∀ c ∈ sp, isPySpace c = true := by
  unfold afterSpaces at h
  split at h
  · rename_i hspace
    cases h
    refine ⟨cs.takeWhile isPySpace, List.takeWhile_append_dropWhile.symm, ?_,
      fun c hc => List.mem_takeWhile_imp hc⟩
    cases cs with
    | nil => cases hspace
    | cons c cs =>
      rw [List.takeWhile_cons_of_pos (show isPySpace c = true from hspace)]
      exact List.cons_ne_nil _ _
  · cases h

/-- What small letters match is a word. -/
theorem word_of_letters (hps : ps.all (fun p => 97 ≤ p.toNat && p.toNat ≤ 122) = true)
    (hw : List.Forall₂ (fun p c => sameLetter p c = true) ps w) : ∀ c ∈ w, T.isWord c = true := by
  induction hw with
  | nil => exact nofun
  | cons hc _ ih =>
    rw [List.all_cons, Bool.and_eq_true, Bool.and_eq_true, decide_eq_true_eq, decide_eq_true_eq] at hps
    exact List.forall_mem_cons.mpr ⟨isWord_of_sameLetter hps.1 hc, ih hps.2⟩

/-- **Where the `DISTINCT` pattern matches**: white space and a word of eight characters. -/
theorem behindDistinct_eq_some (h : behindDistinct T rest = some behind) :
    ∃ sp w, rest = sp ++ (w ++ behind) ∧ (∀ c ∈ sp, isPySpace c = true) ∧ w.length = 8 ∧
      (∀ c ∈ w, isIdent T c = true) ∧ ∀ c ∈ behind.head?, T.isWord c = false := by
  obtain ⟨cs, hspaces, hword⟩ := Option.bind_eq_some_iff.mp h
  obtain ⟨sp, rfl, -, hsp⟩ := afterSpaces_eq_some hspaces
  unfold afterWord at hword
  split at hword
  · rename_i rest' hletters
    split at hword
    · rename_i hboundary
      cases hword
      obtain ⟨w, rfl, hw⟩ := afterLetters_eq_some hletters
      have hlen := hw.length_eq
      have hwords : ∀ c ∈ w, T.isWord c = true := word_of_letters (by decide) hw
      refine ⟨sp, w, rfl, hsp, hlen.symm, fun c hc => isIdent_of_word (hwords c hc), fun c hc => ?_⟩
      -- the last letter is a word character, so the boundary is no word character behind it
      rw [List.take_left' hlen.symm] at hboundary
      have hlast : w.getLast?.any T.isWord = true := by
        obtain ⟨c', hc'⟩ : ∃ c', w.getLast? = some c' := by
          rw [← Option.isSome_iff_exists, List.getLast?_isSome]
          rintro rfl
          cases hlen
        rw [hc', Option.any_some]
        exact hwords c' (List.mem_of_getLast? hc')
      rw [wordBoundary, hlast, Option.mem_def.mp hc, Option.any_some] at hboundary
      simpa using hboundary
    · cases hword
  · cases hword

/-- What `top` matches spells the keyword. -/
theorem toUpper_of_top (hp : p ∈ ['t', 'o', 'p']) (h : sameLetter p c = true) :
    c.toUpper = p.toUpper := by
  have hlower : c.toLower = p := by
    simp only [List.mem_cons, List.not_mem_nil, or_false] at hp
    simp only [sameLetter, Bool.or_eq_true, Bool.and_eq_true, beq_iff_eq] at h
    rcases h with (h | ⟨rfl, -⟩) | ⟨rfl, -⟩
    · exact h
    · exact absurd hp (by decide)
    · exact absurd hp (by decide)
  rcases toLower_eq hlower with rfl | ⟨-, -, hup⟩
  · rfl
  · simp only [List.mem_cons, List.not_mem_nil, or_false] at hp
    rcases hp with rfl | rfl | rfl
    · rw [Char.toNat_inj.mp (show c.toNat = 'T'.toNat by simp at hup ⊢; omega)]; rfl
    · rw [Char.toNat_inj.mp (show c.toNat = 'O'.toNat by simp at hup ⊢; omega)]; rfl
    · rw [Char.toNat_inj.mp (show c.toNat = 'P'.toNat by simp at hup ⊢; omega)]; rfl

/-- The head of white space is no word character. -/
theorem isIdent_of_spaces {sp : List Char} (hne : sp ≠ []) (hsp : ∀ c ∈ sp, isPySpace c = true) :
    ∀ c ∈ (sp ++ cs).head?, isIdent T c = false := by
  cases sp with
  | nil => exact absurd rfl hne
  | cons c sp =>
    rintro c' ⟨⟩
    exact isIdent_space (hsp c List.mem_cons_self)

/-- The `TOP` pattern begins with white space. -/
theorem head_of_topAfter (h : topAfter T rest = true) : ∀ c ∈ rest.head?, isIdent T c = false := by
  obtain ⟨r, hr, -⟩ := (Option.any_eq_true _ _).mp h
  obtain ⟨r₁, hspaces, -⟩ := Option.bind_eq_some_iff.mp hr
  obtain ⟨sp, rfl, hne, hsp⟩ := afterSpaces_eq_some hspaces
  exact isIdent_of_spaces hne hsp

/-- **Where the `TOP` pattern matches** a `TOP` is read. -/
theorem read_of_topAfter (h : topAfter T rest = true) :
    ∃ B, (lexer T).read (inCode d) rest = ⟨d, .keyword .top⟩ :: B := by
  obtain ⟨r, hr, -⟩ := (Option.any_eq_true _ _).mp h
  obtain ⟨r₁, hspaces, hr⟩ := Option.bind_eq_some_iff.mp hr
  obtain ⟨r₂, hletters, hspaces'⟩ := Option.bind_eq_some_iff.mp hr
  obtain ⟨sp, rfl, -, hsp⟩ := afterSpaces_eq_some hspaces
  obtain ⟨w, rfl, hw⟩ := afterLetters_eq_some hletters
  obtain ⟨sp', rfl, hne, hsp'⟩ := afterSpaces_eq_some hspaces'
  have hident : ∀ c ∈ w, isIdent T c = true :=
    fun c hc => isIdent_of_word (word_of_letters (by decide) hw c hc)
  have htop : tokenOf w = .keyword .top := by
    refine tokenOf_of_spelling ?_
    cases hw with
    | cons ht hw =>
      cases hw with
      | cons ho hw =>
        cases hw with
        | cons hp hw =>
          cases hw with
          | nil =>
            rw [List.map_cons, List.map_cons, List.map_cons, List.map_nil,
              toUpper_of_top (by decide) ht, toUpper_of_top (by decide) ho,
              toUpper_of_top (by decide) hp]
            rfl
  have hword : w ≠ [] := by
    rintro rfl
    cases htop
  rw [read_spaces hsp, read_word_append hword hident (isIdent_of_spaces hne hsp'), htop]
  exact ⟨_, rfl⟩

/-! ## The tokens of the cap -/

/-- The characters of the words of the cap. -/
def isCapLetter (c : Char) : Bool := c.toNat < 128 && (c.isAlphanum || c == '_')

theorem isIdent_capLetter (h : isCapLetter c = true) : isIdent T c = true := by
  rw [isCapLetter, Bool.and_eq_true, decide_eq_true_eq] at h
  exact isIdent_of_word (by rw [T.word_ascii c h.1, h.2])

theorem isIdent_capWord (h : w.all isCapLetter = true) : ∀ c ∈ w, isIdent T c = true :=
  fun c hc => isIdent_capLetter (List.all_eq_true.mp h c hc)

/-- The other characters of the cap. -/
theorem isIdent_symbol (h : c ∈ [' ', '*', '(', ')']) : isIdent T c = false := by
  simp only [List.mem_cons, List.not_mem_nil, or_false] at h
  rcases h with rfl | rfl | rfl | rfl <;> rw [isIdent, T.word_ascii _ (by decide)] <;> decide

/-- A word of the cap and the blank behind it. -/
theorem read_capWord (hne : w ≠ []) (hw : w.all isCapLetter = true) :
    (lexer T).read (inCode d) (w ++ ' ' :: cs) = ⟨d, tokenOf w⟩ :: (lexer T).read (inCode d) cs := by
  have hblank : ∀ c ∈ (' ' :: cs).head?, isIdent T c = false := by
    rintro c ⟨⟩
    exact isIdent_symbol (by decide)
  rw [read_word_append hne (isIdent_capWord hw) hblank, read_blank]

theorem toDigits_digits (n : ℕ) : ∀ c ∈ Nat.toDigits 10 n, c.isDigit = true :=
  fun _ hc => Nat.isDigit_of_mem_toDigits (by decide) (by decide) hc

theorem isIdent_of_isDigit (h : c.isDigit = true) : isIdent T c = true := by
  have halpha : c.isAlphanum = true := by rw [Char.isAlphanum, h, Bool.or_true]
  have hascii : c.toNat < 128 := by
    have hranges := (isAlphanum_iff c).mp halpha
    omega
  exact isIdent_capLetter (by simp [isCapLetter, halpha, hascii])

theorem topText_eq (n : ℕ) : topText n = [' ', 'T', 'O', 'P', ' '] ++ Nat.toDigits 10 n :=
  congrArg (· ++ Nat.toDigits 10 n) (show " TOP ".toList = [' ', 'T', 'O', 'P', ' '] by decide)

/-- A word and what it goes on with. -/
theorem read_letters (hne : w ≠ []) (hw : ∀ c ∈ w, isIdent T c = true) :
    (lexer T).read (inCode d) (w ++ cs) = ⟨d, tokenOf (w ++ cs.takeWhile (isIdent T))⟩ ::
      (lexer T).read (inCode d) (cs.dropWhile (isIdent T)) := by
  cases w with
  | nil => exact absurd rfl hne
  | cons c w =>
    rw [List.cons_append, read_ident (hw c List.mem_cons_self), ← List.cons_append,
      List.takeWhile_append_of_pos hw, List.dropWhile_append_of_pos hw]

/-- **The tokens of ` TOP n`** and of the word its digits go on with. -/
theorem read_topText : (lexer T).read (inCode d) (topText n ++ cs) =
    ⟨d, .keyword .top⟩ :: ⟨d, tokenOf (Nat.toDigits 10 n ++ cs.takeWhile (isIdent T))⟩ ::
      (lexer T).read (inCode d) (cs.dropWhile (isIdent T)) := by
  have hdigits : ∀ c ∈ Nat.toDigits 10 n, isIdent T c = true :=
    fun c hc => isIdent_of_isDigit (toDigits_digits n c hc)
  have htext : topText n ++ cs = ' ' :: (['T', 'O', 'P'] ++ ' ' :: (Nat.toDigits 10 n ++ cs)) := by
    rw [topText_eq]
    rfl
  rw [htext, read_blank, read_capWord (List.cons_ne_nil _ _) rfl,
    read_letters Nat.toDigits_ne_nil hdigits]
  rfl

theorem topText_head : ∀ c ∈ (topText n ++ cs).head?, isIdent T c = false := by
  intro c hc
  rw [topText_eq, List.append_assoc, List.cons_append, List.head?_cons, Option.mem_some_iff] at hc
  exact hc ▸ isIdent_symbol (by decide)

/-- The tokens of ` TOP n` where a word ends. -/
theorem read_topText_of_end (hend : ∀ c ∈ cs.head?, isIdent T c = false) :
    (lexer T).read (inCode d) (topText n ++ cs) =
      ⟨d, .keyword .top⟩ :: ⟨d, .number⟩ :: (lexer T).read (inCode d) cs := by
  obtain ⟨htake, hdrop⟩ := takeWhile_ends hend
  rw [read_topText, htake, hdrop, List.append_nil, tokenOf_digits (toDigits_digits n)]

/-- A character of the cap that is no word. -/
theorem freshStep_symbol (hc : c ∈ ['*', '(', ')']) : freshStep T d c =
    match c with
    | '(' => ([⟨d, .openParen⟩], inCode (d + 1))
    | ')' => ([⟨d - 1, .closeParen⟩], inCode (d - 1))
    | _ => ([⟨d, .symbol⟩], inCode d) := by
  have hident : ¬ isIdent T c = true := by
    rw [isIdent_symbol (List.mem_cons_of_mem _ hc)]
    exact Bool.false_ne_true
  unfold freshStep
  rw [if_neg hident]
  simp only [List.mem_cons, List.not_mem_nil, or_false] at hc
  rcases hc with rfl | rfl | rfl <;> rfl

theorem read_star : (lexer T).read (inCode d) ('*' :: cs) =
    ⟨d, .symbol⟩ :: (lexer T).read (inCode d) cs := by
  rw [Transducer.read_cons, inCode, step_code rfl, freshStep_symbol (by decide)]
  rfl

theorem read_open : (lexer T).read (inCode d) ('(' :: cs) =
    ⟨d, .openParen⟩ :: (lexer T).read (inCode (d + 1)) cs := by
  rw [Transducer.read_cons, inCode, step_code rfl, freshStep_symbol (by decide)]
  rfl

theorem read_close : (lexer T).read (inCode (d + 1)) (')' :: cs) =
    ⟨d, .closeParen⟩ :: (lexer T).read (inCode d) cs := by
  rw [Transducer.read_cons, inCode, step_code rfl, freshStep_symbol (by decide)]
  simp only [add_sub_cancel_right]
  rfl

/-- The letters of the wrapper. -/
theorem wrapped_eq {body : List Char} : wrapped n body =
    ['S', 'E', 'L', 'E', 'C', 'T'] ++ (topText n ++ ' ' :: '*' :: ' ' ::
      (['F', 'R', 'O', 'M'] ++ ' ' :: '(' :: (body ++ ") AS _ensure_top_capped".toList))) := by
  have hselect : "SELECT".toList = ['S', 'E', 'L', 'E', 'C', 'T'] := by decide
  have hfrom : " * FROM (".toList = [' ', '*', ' ', 'F', 'R', 'O', 'M', ' ', '('] := by decide
  unfold wrapped
  rw [hselect, hfrom]
  generalize ") AS _ensure_top_capped".toList = tail
  simp only [List.append_assoc, List.cons_append, List.nil_append]

/-- **The tokens around what is wrapped.** -/
theorem read_wrapped {body : List Char} : (lexer T).read (inCode 0) (wrapped n body) =
    wrapHead ++ (lexer T).read (inCode 1) (body ++ ") AS _ensure_top_capped".toList) := by
  have hblank : ∀ {z : List Char}, ∀ c ∈ (' ' :: z).head?, isIdent T c = false := by
    rintro z c ⟨⟩
    exact isIdent_symbol (by decide)
  rw [wrapped_eq, read_word_append (List.cons_ne_nil _ _) (isIdent_capWord rfl) topText_head,
    read_topText_of_end hblank, read_blank, read_star, read_blank,
    read_capWord (List.cons_ne_nil _ _) rfl, read_open]
  rfl

/-- The tokens behind what is wrapped. -/
theorem read_wrapTail : (lexer T).read (inCode 1) (") AS _ensure_top_capped".toList) = wrapTail := by
  have htext : ") AS _ensure_top_capped".toList =
      ')' :: ' ' :: (['A', 'S'] ++ ' ' :: ("_ensure_top_capped".toList ++ [])) := by decide
  have hname : "_ensure_top_capped".toList.all isCapLetter = true := by decide
  rw [htext, show (1 : ℤ) = 0 + 1 from rfl, read_close, read_blank,
    read_capWord (List.cons_ne_nil _ _) rfl,
    read_word_append (by decide) (isIdent_capWord hname) (fun c hc => by cases hc)]
  rfl

/-- **What is wrapped** is read inside one more parenthesis. -/
theorem read_body {body : List Char} {held : Pending}
    (hafter : (lexer T).after (inCode 0) body = ⟨.code held, 0⟩) :
    (lexer T).read (inCode 1) (body ++ ") AS _ensure_top_capped".toList) =
      (tokens T body).map Placed.deeper ++ wrapTail := by
  have hone : inCode 1 = (inCode 0).deeper := rfl
  have hext : ∀ c ∈ (") AS _ensure_top_capped".toList).head?, held.extend T c = none := by
    rintro c ⟨⟩
    cases held with
    | word w => exact extend_word_eq_none (isIdent_symbol (by decide))
    | dash => rfl
    | slash => rfl
    | closed q => cases q <;> rfl
    | nothing => rfl
  rw [Transducer.read_append, hone, Transducer.output_map step_deeper, Transducer.after_map step_deeper,
    hafter, show State.deeper ⟨.code held, 0⟩ = ⟨.code held, 0 + 1⟩ from rfl, read_code hext,
    flush_deeper, ← List.append_assoc, ← List.map_append, show (0 : ℤ) + 1 = 1 from rfl, read_wrapTail,
    tokens, Transducer.read, hafter]
  rfl

/-- A line comment at the end of what is wrapped takes the closing parenthesis. -/
theorem read_body_comment {body : List Char} {d : ℤ}
    (hafter : (lexer T).after (inCode 0) body = ⟨.lineComment, d⟩) :
    (lexer T).read (inCode 1) (body ++ ") AS _ensure_top_capped".toList) =
      (tokens T body).map Placed.deeper := by
  have hone : inCode 1 = (inCode 0).deeper := rfl
  -- no character of the tail ends the comment
  have htail : (lexer T).read ⟨.lineComment, d + 1⟩ (") AS _ensure_top_capped".toList ++ []) = [] :=
    Transducer.read_quiet (T := lexer T) (p := fun c => ¬ (c = '\n' ∨ c = '\r'))
      (fun c hc => by
        rw [step_inside (m := .lineComment) (fun held h => by cases h), Mode.inside, if_neg hc])
      fun c hc => by
        have hall : (") AS _ensure_top_capped".toList).all (fun c => c ≠ '\n' && c ≠ '\r') = true := by
          decide
        simpa using List.all_eq_true.mp hall c hc
  rw [List.append_nil] at htail
  rw [Transducer.read_append, hone, Transducer.output_map step_deeper, Transducer.after_map step_deeper,
    hafter, show State.deeper ⟨.lineComment, d⟩ = ⟨.lineComment, d + 1⟩ from rfl, htail, tokens,
    Transducer.read, hafter, show (lexer T).finish ⟨.lineComment, d⟩ = [] from rfl, List.append_nil,
    List.append_nil]

/-! ## What the cap is for -/

variable (T) in
/-- The scan finds the outermost `SELECT` keywords and no others. -/
def ScanAgrees (sql : List Char) : Prop := topLevelSelectMatches T sql = outermost T .select sql

instance (sql : List Char) : Decidable (ScanAgrees T sql) :=
  inferInstanceAs (Decidable (_ = _))

variable (T) in
/-- **The promise of `ensure_top`**: what it returns is a statement that is capped, and what it takes for
the keywords are the keywords. -/
structure KeepsCap (repr : String → String) (sql : List Char) (n : ℕ) : Prop where
  /-- The text returned is capped, and a statement. -/
  capped : ∀ out, ensureTop T repr sql n = .ok out →
    Capped (outline (tokens T out)) ∧ Statement (tokens T out)
  /-- Every `SELECT` counted is one. -/
  selects : ∀ start ∈ topLevelSelectMatches T sql,
    ∃ d, keywordAt T (sql.take start) (sql.drop start) = some (d, .select)
  /-- Every `TOP` counted is one. -/
  tops : ∀ start ∈ topLevelSelectMatches T sql, topAfter T (sql.drop (start + "SELECT".length)) = true →
    (tokens T (sql.drop (start + "SELECT".length))).head? = some ⟨0, .keyword .top⟩

variable (T) in
/-- **When one outermost select takes its cap**, `a` being the outermost tokens before it and `v` the text
behind its `SELECT`: no set operation stands beside it, and the `TOP` the pattern finds is plain, or it can
take one, behind the `DISTINCT` the pattern finds. -/
def TakesCapSingle (a : List Token) (v : List Char) : Prop :=
  (∀ t ∈ a ++ outline (tokens T v), t.isSetOp = false) ∧
    match behindDistinct T v with
    | some behind =>
      if topAfter T behind then plainTop (skipQuantifier (outline (tokens T v))) = true
      else (outline (tokens T v)).head? = some (.keyword .distinct) ∧
        TakesTop (outline (tokens T v)).tail
    | none =>
      if topAfter T v then plainTop (skipQuantifier (outline (tokens T v))) = true
      else TakesTop (outline (tokens T v))

variable (T) in
/-- **When several outermost selects take their cap**, `body` being the text from the first on: the pattern
finds an `ORDER BY` outside every parenthesis, or no set operation stands before them, they are a query that
may stand inside parentheses, and no comment at their end takes the closing one. -/
def TakesCapSeveral (a : List Token) (body : List Char) : Prop :=
  hasTopLevelOrderBy T body = true ∨
    ((∀ t ∈ a, t.isSetOp = false) ∧ DerivedQuery (tokens T body) ∧
      ((lexer T).after (inCode 0) body).mode ≠ .lineComment)

variable (T) in
/-- **When a statement takes its cap.** -/
def TakesCap (sql : List Char) : Prop :=
  match topLevelSelectMatches T sql with
  | [] => True
  | [start] =>
    TakesCapSingle T (outline (tokens T (sql.take start))) (sql.drop (start + "SELECT".length))
  | start :: _ :: _ => TakesCapSeveral T (outline (tokens T (sql.take start))) (sql.drop start)

/-! ## One outermost select -/

section Single

variable {a ts : List Token} {A B : List Placed} {q : List Token}

/-- A `TOP` in the statement is the cap. -/
theorem capped_of_top (hA : .keyword .select ∉ a) (hts : .keyword .select ∉ ts)
    (hlegal : TopLegal ts) (htop : .keyword .top ∈ ts) :
    Capped (a ++ .keyword .select :: ts) ↔
      (∀ t ∈ a ++ ts, t.isSetOp = false) ∧ plainTop (skipQuantifier ts) = true := by
  have hbranch : branch ts = ts :=
    List.takeWhile_eq_self_iff.mpr fun t ht => decide_eq_true (ne_of_mem_of_not_mem ht hts)
  rw [capped_iff hA, offsetFetch_eq_false (hlegal (hbranch.symm ▸ htop)).2]
  simp only [hts, not_false_eq_true, true_and, Bool.false_eq_true, or_false]
  exact and_comm

/-- **A cap put into the select.** -/
theorem spliced_iff (hq : IsQuantifier q)
    (h : Statement (A ++ ⟨0, .keyword .select⟩ :: (q.map (⟨0, ·⟩) ++ B)))
    (hA : ⟨0, .keyword .select⟩ ∉ A) (hB : ⟨0, .keyword .select⟩ ∉ B) :
    Capped (outline (A ++ ⟨0, .keyword .select⟩ ::
          (q.map (⟨0, ·⟩) ++ ([⟨0, .keyword .top⟩, ⟨0, .number⟩] ++ B)))) ∧
        Statement (A ++ ⟨0, .keyword .select⟩ ::
          (q.map (⟨0, ·⟩) ++ ([⟨0, .keyword .top⟩, ⟨0, .number⟩] ++ B))) ↔
      (∀ t ∈ outline A ++ (q ++ outline B), t.isSetOp = false) ∧ TakesTop (outline B) := by
  have hX : ∀ t ∈ q.map (Placed.mk 0), Spliced t := by
    rcases hq with rfl | rfl
    · exact fun t ht => absurd ht List.not_mem_nil
    · exact fun t ht => .inl (List.mem_singleton.mp ht)
  have hI : ∀ t ∈ [Placed.mk 0 (.keyword .top), ⟨0, .number⟩], Spliced t := by
    simp only [List.mem_cons, List.not_mem_nil, or_false]
    exact fun t ht => .inr ht
  have hold : TopLegal (q ++ outline B) := by
    have htop := topLegal_of_statement h hA
    rwa [outline_append, outline_map] at htop
  have hnew : outline (q.map (⟨0, ·⟩) ++ ([⟨0, .keyword .top⟩, ⟨0, .number⟩] ++ B)) =
      q ++ .keyword .top :: .number :: outline B := by
    rw [outline_append, outline_map]
    rfl
  have hselect : Token.keyword .select ∉ q ++ .keyword .top :: .number :: outline B := by
    have hB' : Token.keyword .select ∉ outline B := fun hmem => hB (mem_outline.mp hmem)
    rcases hq with rfl | rfl <;> simp [hB']
  have hops : (∀ t ∈ outline A ++ (q ++ .keyword .top :: .number :: outline B), t.isSetOp = false) ↔
      ∀ t ∈ outline A ++ (q ++ outline B), t.isSetOp = false := by
    simp only [List.mem_append, List.mem_cons, or_imp, forall_and, forall_eq]
    simp [Token.isSetOp]
  rw [legal_splice_iff h hA hX hI, hnew, outline_append, outline_cons_zero, hnew, ← takesTop_iff hq hold,
    and_comm, ← and_assoc, and_comm (a := ∀ t ∈ _, _), and_assoc]
  refine and_congr_right fun hlegal => ?_
  rw [capped_of_top (fun hmem => hA (mem_outline.mp hmem)) hselect hlegal
    (List.mem_append_right _ List.mem_cons_self), hops]

/-- What `ensure_top` does with one `SELECT` outside every parenthesis. -/
theorem ensureTop_single {repr : String → String} (hw : w.length = "SELECT".length)
    (hmatch : topLevelSelectMatches T (u ++ (w ++ v)) = [u.length]) :
    ensureTop T repr (u ++ (w ++ v)) n =
      match behindDistinct T v with
      | some behind =>
        if topAfter T behind then .ok (u ++ (w ++ v))
        else .ok (u ++ (w ++ (v.take (v.length - behind.length) ++ (topText n ++ behind))))
      | none =>
        if topAfter T v then .ok (u ++ (w ++ v)) else .ok (u ++ (w ++ (topText n ++ v))) := by
  have hdrop : (u ++ (w ++ v)).drop (u.length + "SELECT".length) = v := by
    rw [← hw, ← List.append_assoc, ← List.length_append, List.drop_left]
  have htake : (u ++ (w ++ v)).take (u.length + "SELECT".length) = u ++ w := by
    rw [← hw, ← List.append_assoc, ← List.length_append, List.take_left]
  rw [ensureTop, hmatch]
  cases hdistinct : behindDistinct T v with
  | none => simp only [hdrop, htake, hdistinct, List.append_assoc]
  | some behind => simp only [hdrop, htake, hdistinct, List.append_assoc]

/-- A word of eight characters is no other keyword than `DISTINCT`. -/
theorem eq_distinct_of_length {k : Keyword} (hw : w.length = 8) (h : tokenOf w = .keyword k) :
    k = .distinct := by
  have hlen : k.spelling.length = 8 := by rw [← tokenOf_eq_keyword h, List.length_map, hw]
  cases k <;> first | rfl | exact absurd hlen (by decide)

/-- Digits that a word goes on with are no number. -/
theorem tokenOf_digits_append {x : List Char} (hne : x ≠ [])
    (hx : ∀ c ∈ x.head?, c.isDigit = false) : tokenOf (Nat.toDigits 10 n ++ x) ≠ .number := by
  intro h
  unfold tokenOf at h
  split at h
  · rename_i hall
    cases x with
    | nil => exact hne rfl
    | cons c x =>
      have hc := List.all_eq_true.mp hall c (List.mem_append_right _ List.mem_cons_self)
      rw [hx c rfl] at hc
      cases hc
  · split at h <;> cases h

theorem tokenOf_ne_openParen : tokenOf w ≠ .openParen := by
  unfold tokenOf
  split
  · exact Token.noConfusion
  · split <;> exact Token.noConfusion

/-- What follows a word boundary is no digit. -/
theorem isDigit_of_takeWhile (h : ∀ c ∈ behind.head?, T.isWord c = false) :
    ∀ c ∈ (behind.takeWhile (isIdent T)).head?, c.isDigit = false := by
  intro c hc
  cases behind with
  | nil => cases hc
  | cons c' behind =>
    by_cases hident : isIdent T c' = true
    · rw [List.takeWhile_cons_of_pos hident] at hc
      cases hc
      by_contra hdigit
      rw [Bool.not_eq_false] at hdigit
      have halpha := (isAlphanum_iff c).mp (by rw [Char.isAlphanum, hdigit, Bool.or_true])
      have hword := h c rfl
      rw [T.word_ascii c (by omega), Char.isAlphanum, hdigit] at hword
      simp at hword
    · rw [List.takeWhile_cons_of_neg hident] at hc
      cases hc

/-- A `TOP` behind a word that is no `DISTINCT`, or before a word that is no number, is out of place. -/
theorem not_topLegal {k₁ k₂ : Token} (hselect : k₁ ≠ .keyword .select) (hall : k₁ ≠ .keyword .all)
    (htop : k₁ ≠ .keyword .top) (hopen : k₂ ≠ .openParen)
    (h : k₁ ≠ .keyword .distinct ∨ k₂ ≠ .number) : ¬ TopLegal (k₁ :: .keyword .top :: k₂ :: ts) := by
  intro hlegal
  have hmem : Token.keyword .top ∈ branch (k₁ :: .keyword .top :: k₂ :: ts) := by
    simp [branch, List.takeWhile_cons, hselect]
  have hplace := (hlegal hmem).1
  unfold topInPlace at hplace
  split at hplace
  · rename_i rest hafter
    by_cases hdistinct : k₁ = .keyword .distinct
    · subst hdistinct
      have hk₂ := h.resolve_left fun hne => hne rfl
      rw [skipQuantifier] at hafter
      unfold afterTop at hafter
      split at hafter
      · rename_i heq
        cases heq
        exact hk₂ rfl
      · rename_i heq
        cases heq
        exact hopen rfl
      · cases hafter
    · have hskip : skipQuantifier (k₁ :: .keyword .top :: k₂ :: ts) = k₁ :: .keyword .top :: k₂ :: ts := by
        unfold skipQuantifier
        split
        · rename_i heq
          cases heq
          exact absurd rfl hall
        · rename_i heq
          cases heq
          exact absurd rfl hdistinct
        · rfl
      have hhead := head_of_afterTop hafter
      rw [hskip, List.head?_cons, Option.some_inj] at hhead
      exact htop hhead
  · cases hplace

/-- A statement with its `TOP` is capped as it stands. -/
theorem kept_iff (h : Statement (A ++ ⟨0, .keyword .select⟩ :: B)) (hA : ⟨0, .keyword .select⟩ ∉ A)
    (hB : ⟨0, .keyword .select⟩ ∉ B) (htop : ⟨0, .keyword .top⟩ ∈ B) :
    Capped (outline (A ++ ⟨0, .keyword .select⟩ :: B)) ∧ Statement (A ++ ⟨0, .keyword .select⟩ :: B) ↔
      (∀ t ∈ outline A ++ outline B, t.isSetOp = false) ∧
        plainTop (skipQuantifier (outline B)) = true := by
  rw [and_iff_left h, outline_append, outline_cons_zero]
  exact capped_of_top (fun hmem => hA (mem_outline.mp hmem)) (fun hmem => hB (mem_outline.mp hmem))
    (topLegal_of_statement h hA) (mem_outline.mpr htop)

/-- **One outermost select keeps its cap** exactly when it takes it. -/
theorem single_iff {repr : String → String} (hcut : KeywordCut T 0 .select u w v)
    (h : Statement (tokens T (u ++ (w ++ v))))
    (hmatch : topLevelSelectMatches T (u ++ (w ++ v)) = [u.length])
    (hA : ⟨0, .keyword .select⟩ ∉ tokens T u) (hB : ⟨0, .keyword .select⟩ ∉ tokens T v) :
    (∀ out, ensureTop T repr (u ++ (w ++ v)) n = .ok out →
      Capped (outline (tokens T out)) ∧ Statement (tokens T out)) ↔
    TakesCapSingle T (outline (tokens T u)) v := by
  have hsql := hcut.tokens_eq hcut.ends
  rw [show (lexer T).read (inCode 0) v = tokens T v from rfl] at hsql
  rw [hsql] at h
  rw [ensureTop_single hcut.length_eq hmatch, TakesCapSingle]
  cases hdistinct : behindDistinct T v with
  | none =>
    simp only
    split
    · rename_i htop
      obtain ⟨B, hv⟩ := read_of_topAfter (d := 0) htop
      simp only [Except.ok.injEq, forall_eq', hsql]
      exact kept_iff h hA hB ((show tokens T v = _ from hv) ▸ List.mem_cons_self)
    · have hout : tokens T (u ++ (w ++ (topText n ++ v))) = tokens T u ++ ⟨0, .keyword .select⟩ ::
          (([] : List Token).map (⟨0, ·⟩) ++ ([⟨0, .keyword .top⟩, ⟨0, .number⟩] ++ tokens T v)) := by
        rw [hcut.tokens_eq topText_head, read_topText_of_end hcut.ends]
        rfl
      simp only [Except.ok.injEq, forall_eq', hout]
      exact spliced_iff (.inl rfl) h hA hB
  | some behind =>
    obtain ⟨sp, l, hv, hsp, hlen, hl, hbehind⟩ := behindDistinct_eq_some hdistinct
    have hne : l ≠ [] := by
      rintro rfl
      cases hlen
    have hv' : tokens T v = ⟨0, tokenOf (l ++ behind.takeWhile (isIdent T))⟩ ::
        (lexer T).read (inCode 0) (behind.dropWhile (isIdent T)) := by
      rw [hv, tokens, read_spaces hsp]
      exact read_letters hne hl
    simp only
    split
    · -- the statement is returned as it is, with the `TOP` behind the word
      rename_i htop
      obtain ⟨B, hbehindB⟩ := read_of_topAfter (d := 0) htop
      obtain ⟨-, hdrop⟩ := takeWhile_ends (head_of_topAfter htop)
      have hmem : ⟨0, .keyword .top⟩ ∈ tokens T v := by
        rw [hv', hdrop, hbehindB]
        exact List.mem_cons_of_mem _ List.mem_cons_self
      simp only [Except.ok.injEq, forall_eq', hsql]
      exact kept_iff h hA hB hmem
    · have htake : v.take (v.length - behind.length) = sp ++ l := by
        rw [hv, ← List.append_assoc, List.length_append, Nat.add_sub_cancel, List.take_left]
      have hends : ∀ c ∈ (sp ++ (l ++ (topText n ++ behind))).head?, isIdent T c = false := by
        intro c hc
        refine hcut.ends c ?_
        rw [hv, ← List.append_assoc, List.head?_append_of_ne_nil _ (by simp [hne])]
        rwa [← List.append_assoc, List.head?_append_of_ne_nil _ (by simp [hne])] at hc
      have hout : tokens T (u ++ (w ++ (sp ++ (l ++ (topText n ++ behind))))) =
          tokens T u ++ ⟨0, .keyword .select⟩ :: ⟨0, tokenOf l⟩ :: ⟨0, .keyword .top⟩ ::
            ⟨0, tokenOf (Nat.toDigits 10 n ++ behind.takeWhile (isIdent T))⟩ ::
            (lexer T).read (inCode 0) (behind.dropWhile (isIdent T)) := by
        rw [hcut.tokens_eq hends, read_spaces hsp, read_word_append hne hl topText_head, read_topText]
      rw [htake]
      simp only [Except.ok.injEq, forall_eq', List.append_assoc, hout]
      by_cases hhead : tokenOf (l ++ behind.takeWhile (isIdent T)) = .keyword .distinct
      · -- the word is `DISTINCT`, and the `TOP` stands behind it
        have hx : behind.takeWhile (isIdent T) = [] := by
          have hspelled := congrArg List.length (tokenOf_eq_keyword hhead)
          rw [List.length_map, List.length_append, hlen] at hspelled
          exact List.length_eq_zero_iff.mp (by simpa [Keyword.spelling] using hspelled)
        rw [hx, List.append_nil] at hhead hv' ⊢
        rw [hhead] at hv' ⊢
        rw [hv'] at h hB
        rw [tokenOf_digits (toDigits_digits n), hv', outline_cons_zero, List.head?_cons, List.tail_cons,
          and_iff_right rfl]
        exact spliced_iff (.inr rfl) h hA fun hmem => hB (List.mem_cons_of_mem _ hmem)
      · -- it is another word: neither is the `TOP` in its place nor does the select take one
        refine iff_of_false ?_ ?_
        · rintro ⟨-, hlegal⟩
          refine not_topLegal ?_ ?_ ?_ ?_ ?_ (topLegal_of_statement hlegal hA)
          · exact fun hk => by cases eq_distinct_of_length hlen hk
          · exact fun hk => by cases eq_distinct_of_length hlen hk
          · exact fun hk => by cases eq_distinct_of_length hlen hk
          · exact tokenOf_ne_openParen
          · by_cases hx : behind.takeWhile (isIdent T) = []
            · rw [hx, List.append_nil] at hhead
              exact .inl hhead
            · exact .inr (tokenOf_digits_append hx (isDigit_of_takeWhile hbehind))
        · rintro ⟨-, htoken, -⟩
          rw [hv', outline_cons_zero, List.head?_cons, Option.some_inj] at htoken
          exact hhead htoken

end Single

/-! ## Several outermost selects -/

/-- A text that leaves nothing open ends in code or in a line comment. -/
theorem finished_cases (h : ∀ t ∈ tokens T cs, t.token ≠ .unfinished) :
    (∃ held, ((lexer T).after (inCode 0) cs).mode = .code held) ∨
      ((lexer T).after (inCode 0) cs).mode = .lineComment := by
  have hfinish : ∀ t ∈ ((lexer T).after (inCode 0) cs).finish, t.token ≠ .unfinished :=
    fun t ht => h t (List.mem_append_right _ ht)
  generalize (lexer T).after (inCode 0) cs = s at hfinish
  obtain ⟨mode, d⟩ := s
  cases mode with
  | code held => exact .inl ⟨held, rfl⟩
  | lineComment => exact .inr rfl
  | quoted q => exact absurd rfl (hfinish ⟨d, .unfinished⟩ (List.mem_singleton_self _))
  | blockComment k last => exact absurd rfl (hfinish ⟨d, .unfinished⟩ (List.mem_singleton_self _))

/-- Without an outermost select there is no text. -/
theorem ensureTop_nil {repr : String → String} {sql out : List Char} (hmatch : topLevelSelectMatches T sql = []) :
    ensureTop T repr sql n ≠ .ok out := by
  rw [ensureTop, hmatch]
  rintro ⟨⟩

/-- Nor is there one for several with an order behind the first. -/
theorem ensureTop_ordered {repr : String → String} {out : List Char} {q : ℕ} {qs : List ℕ}
    (hmatch : topLevelSelectMatches T (u ++ v) = u.length :: q :: qs) (horder : hasTopLevelOrderBy T v = true) :
    ensureTop T repr (u ++ v) n ≠ .ok out := by
  rw [ensureTop, hmatch]
  simp only [List.drop_left, horder, if_true]
  rintro ⟨⟩

/-- What `ensure_top` does with several. -/
theorem ensureTop_several {repr : String → String} {q : ℕ} {qs : List ℕ}
    (hmatch : topLevelSelectMatches T (u ++ v) = u.length :: q :: qs)
    (horder : hasTopLevelOrderBy T v = false) :
    ensureTop T repr (u ++ v) n = .ok (u ++ wrapped n v) := by
  rw [ensureTop, hmatch]
  simp only [List.drop_left, List.take_left, horder, Bool.false_eq_true, if_false]

/-- **Several outermost selects keep their cap** exactly when they take it. -/
theorem several_iff {repr : String → String} {q : ℕ} {qs : List ℕ}
    (hcut : KeywordCut T 0 .select u w v) (h : Statement (tokens T (u ++ (w ++ v))))
    (hmatch : topLevelSelectMatches T (u ++ (w ++ v)) = u.length :: q :: qs)
    (hA : ⟨0, .keyword .select⟩ ∉ tokens T u) :
    (∀ out, ensureTop T repr (u ++ (w ++ v)) n = .ok out →
      Capped (outline (tokens T out)) ∧ Statement (tokens T out)) ↔
    TakesCapSeveral T (outline (tokens T u)) (w ++ v) := by
  by_cases horder : hasTopLevelOrderBy T (w ++ v) = true
  · exact iff_of_true (fun out hout => absurd hout (ensureTop_ordered hmatch horder)) (.inl horder)
  · rw [Bool.not_eq_true] at horder
    have hbody : tokens T (w ++ v) = ⟨0, .keyword .select⟩ :: (lexer T).read (inCode 0) v := by
      rw [tokens, read_word_append hcut.ne_nil hcut.ident hcut.ends, hcut.token]
    have hsql : tokens T (u ++ (w ++ v)) = tokens T u ++ tokens T (w ++ v) := by
      rw [hcut.tokens_eq hcut.ends, hbody]
    obtain ⟨held₀, hafter₀, -⟩ := hcut.fresh
    have hopenedA : opened (tokens T u) = 0 := opened_tokens hafter₀
    rw [hsql] at h
    have hbalanced := h.balanced
    rw [opened_append, hopenedA, zero_add] at hbalanced
    have hout : tokens T (u ++ wrapped n (w ++ v)) = tokens T u ++ (wrapHead ++
        (lexer T).read (inCode 1) (w ++ v ++ ") AS _ensure_top_capped".toList)) := by
      rw [← read_wrapped (n := n), wrapped_eq]
      exact hcut.tokens_letter
    rw [ensureTop_several hmatch horder, TakesCapSeveral, horder]
    simp only [Except.ok.injEq, forall_eq', hout, Bool.false_eq_true, false_or]
    rcases finished_cases (fun t ht => (h.placed t (List.mem_append_right _ ht)).2.1) with
      ⟨held, hmode⟩ | hmode
    · have hafter : (lexer T).after (inCode 0) (w ++ v) = ⟨.code held, 0⟩ := by
        generalize hs : (lexer T).after (inCode 0) (w ++ v) = s at hmode
        obtain ⟨mode, e⟩ := s
        cases hmode
        rw [← hbalanced, opened_tokens hs]
      have hselect : Token.keyword .select ∉ outline (tokens T u) := fun hmem => hA (mem_outline.mp hmem)
      have hL0 : ∀ t ∈ tokens T (w ++ v), 0 ≤ t.depth :=
        fun t ht => (h.placed t (List.mem_append_right _ ht)).1
      have houtline : outline (tokens T u ++ (wrapHead ++
          ((tokens T (w ++ v)).map Placed.deeper ++ wrapTail))) =
          outline (tokens T u) ++ .keyword .select ::
            [.keyword .top, .number, .symbol, .name, .openParen, .closeParen, .name, .name] := by
        rw [outline_append, outline_append, outline_append, outline_deeper hL0]
        rfl
      rw [read_body hafter, hafter, legal_wrap_iff h hA hopenedA ⟨_, hbody⟩, houtline,
        capped_of_top hselect (by decide) (by decide) (by decide),
        and_iff_left (show plainTop (skipQuantifier _) = true from rfl)]
      simp only [List.forall_mem_append, ne_eq, reduceCtorEq, not_false_eq_true, and_true]
      exact and_congr_left fun _ => and_iff_left (by decide)
    · rw [hmode]
      refine iff_of_false ?_ fun hcap => hcap.2.2 rfl
      rintro ⟨-, hlegal⟩
      generalize hs : (lexer T).after (inCode 0) (w ++ v) = s at hmode
      obtain ⟨mode, e⟩ := s
      cases hmode
      rw [read_body_comment hs] at hlegal
      exact not_legal_unclosed h.balanced hlegal

/-! ## Every statement -/

/-- `SELECT TOP (10) Name FROM sales.Customer`. -/
def parenthesisedTop : Expr :=
  .ofCls .select
    [(.expressions, .columnRef "" "Name"),
     (.from_, .ofCls .fromClause [(.this, .tableRef "sales" "Customer" "")]),
     (.limit, .ofCls .limit [(.expression, .ofCls .paren [(.this, .ofCls (.literal "10" false))])])]

end LocalSqlAgent
