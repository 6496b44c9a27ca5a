import LocalSqlAgent.Lib.PyText
import LocalSqlAgent.Lib.Transducer
import Mathlib.Algebra.Order.Ring.Int
import Mathlib.Data.List.TakeWhile

/-! # T-SQL text as tokens

How T-SQL reads a text, independently of the guard's scanner: string literals, quoted and bracketed
identifiers (a doubled closing quote stays inside), line comments, nested block comments, and words of
letters, digits, `_`, `@`, `#` and `$`. A dotted name and a decimal number are one word. Every token
carries the parentheses it stands in.

* **`tokens`**: the tokens of a text, by the transducer `lexer`.
* **`keywordAt`**: the keyword that starts behind a part of a text, and its depth.
* **`KeywordCut`**: a text cut before and behind a keyword; whatever replaces the rest, the tokens before
  stay (`tokens_eq`), and around its first and last place the keyword is not among the outermost tokens. -/

namespace LocalSqlAgent

namespace Tsql

/-! ## Tokens -/

/-- The words the outline of a query is read from. -/
inductive Keyword where
  | select | top | distinct | all | percent | withWord
  | order | by | offset | fetch | forWord | option
  | union | intersect | except
  deriving DecidableEq, Repr

/-- How a keyword is spelled. -/
def Keyword.spelling : Keyword → List Char
  | .select => ['S', 'E', 'L', 'E', 'C', 'T']
  | .top => ['T', 'O', 'P']
  | .distinct => ['D', 'I', 'S', 'T', 'I', 'N', 'C', 'T']
  | .all => ['A', 'L', 'L']
  | .percent => ['P', 'E', 'R', 'C', 'E', 'N', 'T']
  | .withWord => ['W', 'I', 'T', 'H']
  | .order => ['O', 'R', 'D', 'E', 'R']
  | .by => ['B', 'Y']
  | .offset => ['O', 'F', 'F', 'S', 'E', 'T']
  | .fetch => ['F', 'E', 'T', 'C', 'H']
  | .forWord => ['F', 'O', 'R']
  | .option => ['O', 'P', 'T', 'I', 'O', 'N']
  | .union => ['U', 'N', 'I', 'O', 'N']
  | .intersect => ['I', 'N', 'T', 'E', 'R', 'S', 'E', 'C', 'T']
  | .except => ['E', 'X', 'C', 'E', 'P', 'T']

/-- Every keyword. -/
def Keyword.list : List Keyword :=
  [.select, .top, .distinct, .all, .percent, .withWord, .order, .by, .offset, .fetch, .forWord,
   .option, .union, .intersect, .except]

/-- A token. Names, literals and operators carry no text: the outline does not depend on it. -/
inductive Token where
  | keyword (k : Keyword)
  /-- A word of ASCII digits. -/
  | number
  /-- Any other word. -/
  | name
  /-- A string literal, or a quoted or bracketed identifier. -/
  | quoted
  | openParen
  | closeParen
  | semicolon
  /-- Any other character. -/
  | symbol
  /-- A quote or a block comment is open at the end. -/
  | unfinished
  deriving DecidableEq, Repr

/-- A token and the number of parentheses open around it; a parenthesis is outside itself. -/
structure Placed where
  /-- The open parentheses, negative where more are closed than were opened. -/
  depth : ℤ
  /-- The token. -/
  token : Token
  deriving DecidableEq, Repr

/-- The token of a whole word. -/
def tokenOf (w : List Char) : Token :=
  if w.all Char.isDigit then .number
  else
    match Keyword.list.find? fun k => w.map Char.toUpper == k.spelling with
    | some k => .keyword k
    | none => .name

/-! ## The lexer -/

/-- The quotes. -/
inductive Quote where
  | single
  | double
  | bracket
  deriving DecidableEq, Repr

/-- What closes a quote. -/
def Quote.close : Quote → Char
  | .single => '\''
  | .double => '"'
  | .bracket => ']'

/-- What was read and is not decided yet. -/
inductive Pending where
  | nothing
  /-- A word that may go on. -/
  | word (w : List Char)
  /-- A minus, or the start of a line comment. -/
  | dash
  /-- A division, or the start of a block comment. -/
  | slash
  /-- A quote closed, unless it is doubled. -/
  | closed (q : Quote)
  deriving DecidableEq, Repr

/-- Where in the text the lexer is. -/
inductive Mode where
  | code (held : Pending)
  | quoted (q : Quote)
  | lineComment
  /-- A block comment, the number of comments around it and the last character. -/
  | blockComment (nesting : ℕ) (last : Char)
  deriving DecidableEq, Repr

/-- The state of the lexer. -/
structure State where
  /-- Where it is. -/
  mode : Mode
  /-- The open parentheses. -/
  depth : ℤ
  deriving DecidableEq, Repr

variable (T : CharTable)

/-- A character of a word. -/
def isIdent (c : Char) : Bool := T.isWord c || c ∈ ['@', '#', '$', '.']

/-- The mode a character that goes on with what is held leads to. -/
def Pending.extend : Pending → Char → Option Mode
  | .word w, c => if isIdent T c then some (.code (.word (w ++ [c]))) else none
  | .dash, c => if c = '-' then some .lineComment else none
  | .slash, c => if c = '*' then some (.blockComment 0 ' ') else none
  | .closed q, c => if c = q.close then some (.quoted q) else none
  | .nothing, _ => none

/-- The tokens of what is held. -/
def Pending.flush (d : ℤ) : Pending → List Placed
  | .word w => [⟨d, tokenOf w⟩]
  | .dash => [⟨d, .symbol⟩]
  | .slash => [⟨d, .symbol⟩]
  | .closed _ => [⟨d, .quoted⟩]
  | .nothing => []

/-- A character in code, when nothing is held. -/
def freshStep (d : ℤ) (c : Char) : List Placed × State :=
  if isIdent T c then ([], ⟨.code (.word [c]), d⟩)
  else if isPySpace c then ([], ⟨.code .nothing, d⟩)
  else match c with
    | '(' => ([⟨d, .openParen⟩], ⟨.code .nothing, d + 1⟩)
    | ')' => ([⟨d - 1, .closeParen⟩], ⟨.code .nothing, d - 1⟩)
    | '\'' => ([], ⟨.quoted .single, d⟩)
    | '"' => ([], ⟨.quoted .double, d⟩)
    | '[' => ([], ⟨.quoted .bracket, d⟩)
    | '-' => ([], ⟨.code .dash, d⟩)
    | '/' => ([], ⟨.code .slash, d⟩)
    | ';' => ([⟨d, .semicolon⟩], ⟨.code .nothing, d⟩)
    | _ => ([⟨d, .symbol⟩], ⟨.code .nothing, d⟩)

/-- The mode after a character of a quote or a comment. -/
def Mode.inside : Mode → Char → Mode
  | .code held, _ => .code held
  | .quoted q, c => if c = q.close then .code (.closed q) else .quoted q
  | .lineComment, c => if c = '\n' ∨ c = '\r' then .code .nothing else .lineComment
  | .blockComment n last, c =>
    if last = '*' ∧ c = '/' then (if n = 0 then .code .nothing else .blockComment (n - 1) ' ')
    else if last = '/' ∧ c = '*' then .blockComment (n + 1) ' '
    else .blockComment n c

/-- The tokens a text leaves when it ends here. -/
def State.finish (s : State) : List Placed :=
  match s.mode with
  | .code held => held.flush s.depth
  | .lineComment => []
  | _ => [⟨s.depth, .unfinished⟩]

/-- The lexer. -/
def lexer : Transducer State Char Placed where
  step s c :=
    match s.mode with
    | .code held =>
      match held.extend T c with
      | some m => ([], ⟨m, s.depth⟩)
      | none => (held.flush s.depth ++ (freshStep T s.depth c).1, (freshStep T s.depth c).2)
    | m => ([], ⟨m.inside c, s.depth⟩)
  finish := State.finish

/-- In code, nothing held. -/
def inCode (d : ℤ) : State := ⟨.code .nothing, d⟩

/-- **The tokens of a text.** -/
def tokens (sql : List Char) : List Placed := (lexer T).read (inCode 0) sql

/-- The keyword that starts behind `u`, when `v` follows and the lexer starts in `s`, and its depth. -/
def keywordFrom (s : State) (u v : List Char) : Option (ℤ × Keyword) :=
  match (lexer T).after s u with
  | ⟨.code held, d⟩ =>
    match v.head?.bind (held.extend T), tokenOf (v.takeWhile (isIdent T)) with
    | none, .keyword k => some (d, k)
    | _, _ => none
  | _ => none

/-- **The keyword that starts behind `u`** in a text that goes on with `v`, and its depth. -/
def keywordAt (u v : List Char) : Option (ℤ × Keyword) := keywordFrom T (inCode 0) u v

/-- Where a keyword stands outside every parenthesis. -/
def outermost (k : Keyword) (sql : List Char) : List ℕ :=
  (List.range sql.length).filter fun p => keywordAt T (sql.take p) (sql.drop p) = some (0, k)

/-! ## Words -/

variable {T} {d : ℤ} {held : Pending} {c : Char} {cs w : List Char} {k : Keyword}

/-- A word that spells a keyword is no number. -/
theorem Keyword.spelling_not_digits (k : Keyword) : k.spelling.all Char.isDigit = false := by
  cases k <;> rfl

theorem Keyword.spelling_ne_nil (k : Keyword) : k.spelling ≠ [] := by
  cases k <;> exact List.cons_ne_nil _ _

/-- A digit has no capital. -/
theorem toUpper_of_isDigit (hc : c.isDigit = true) : c.toUpper = c := by
  refine dif_neg fun h => ?_
  rw [Char.isDigit, Bool.and_eq_true, decide_eq_true_eq, decide_eq_true_eq] at hc
  simp only [ge_iff_le, UInt32.le_iff_toNat_le] at hc h
  have ha : 'a'.val.toNat = 97 := rfl
  have h9 : '9'.val.toNat = 57 := rfl
  omega

/-- A keyword is spelled one way. -/
theorem tokenOf_eq_keyword (h : tokenOf w = .keyword k) : w.map Char.toUpper = k.spelling := by
  unfold tokenOf at h
  split at h
  · cases h
  · split at h
    · rename_i k' hfind
      cases h
      simpa using List.find?_some hfind
    · cases h

/-- A word that spells a keyword is that keyword. -/
theorem tokenOf_of_spelling (h : w.map Char.toUpper = k.spelling) : tokenOf w = .keyword k := by
  have hdigits : w.all Char.isDigit = false := by
    by_contra hall
    rw [Bool.not_eq_false, List.all_eq_true] at hall
    have hsame : w.map Char.toUpper = w := by
      rw [List.map_congr_left fun c hc => toUpper_of_isDigit (hall c hc), List.map_id']
    rw [hsame] at h
    rw [h, ← List.all_eq_true, k.spelling_not_digits] at hall
    cases hall
  rw [tokenOf, hdigits, h]
  cases k <;> rfl

theorem tokenOf_nil : tokenOf [] = .number := rfl

/-- A word of digits is a number. -/
theorem tokenOf_digits (h : ∀ c ∈ w, c.isDigit = true) : tokenOf w = .number :=
  if_pos (List.all_eq_true.mpr h)

/-! ## Reading on from a state -/

theorem step_code (hext : held.extend T c = none) :
    (lexer T).step ⟨.code held, d⟩ c =
      (held.flush d ++ (freshStep T d c).1, (freshStep T d c).2) := by
  simp only [lexer, hext]

theorem step_extend {m : Mode} (hext : held.extend T c = some m) :
    (lexer T).step ⟨.code held, d⟩ c = ([], ⟨m, d⟩) := by
  simp only [lexer, hext]

theorem step_inside {m : Mode} (hm : ∀ held, m ≠ .code held) :
    (lexer T).step ⟨m, d⟩ c = ([], ⟨m.inside c, d⟩) := by
  cases m with
  | code held => exact absurd rfl (hm held)
  | quoted q => rfl
  | lineComment => rfl
  | blockComment n last => rfl

/-- What is held ends where the text does not go on with it. -/
theorem read_code (hext : ∀ c ∈ cs.head?, held.extend T c = none) :
    (lexer T).read ⟨.code held, d⟩ cs = held.flush d ++ (lexer T).read (inCode d) cs := by
  cases cs with
  | nil => exact (List.append_nil _).symm
  | cons c cs =>
    rw [Transducer.read_cons, Transducer.read_cons, step_code (hext c rfl), inCode, step_code rfl,
      List.append_assoc]
    rfl

theorem extend_word (hc : isIdent T c = true) :
    (Pending.word w).extend T c = some (.code (.word (w ++ [c]))) := if_pos hc

theorem extend_word_eq_none (hc : isIdent T c = false) : (Pending.word w).extend T c = none :=
  if_neg (by rw [hc]; exact Bool.false_ne_true)

theorem freshStep_ident (hc : isIdent T c = true) :
    freshStep T d c = ([], ⟨.code (.word [c]), d⟩) := if_pos hc

/-- **A word is read to its end.** -/
theorem read_word : (lexer T).read ⟨.code (.word w), d⟩ cs =
    ⟨d, tokenOf (w ++ cs.takeWhile (isIdent T))⟩ ::
      (lexer T).read (inCode d) (cs.dropWhile (isIdent T)) := by
  induction cs generalizing w with
  | nil => rw [List.takeWhile_nil, List.append_nil]; rfl
  | cons c cs ih =>
    by_cases hc : isIdent T c = true
    · rw [Transducer.read_cons, step_extend (extend_word hc), List.nil_append, ih,
        List.takeWhile_cons_of_pos hc, List.dropWhile_cons_of_pos hc, List.append_assoc,
        List.singleton_append]
    · rw [List.takeWhile_cons_of_neg hc, List.dropWhile_cons_of_neg hc, List.append_nil]
      refine read_code fun c' hc' => ?_
      cases hc'
      exact extend_word_eq_none (Bool.not_eq_true _ ▸ hc)

/-- A word in code. -/
theorem read_ident (hc : isIdent T c = true) : (lexer T).read (inCode d) (c :: cs) =
    ⟨d, tokenOf ((c :: cs).takeWhile (isIdent T))⟩ ::
      (lexer T).read (inCode d) ((c :: cs).dropWhile (isIdent T)) := by
  rw [Transducer.read_cons, inCode, step_code rfl, freshStep_ident hc, List.takeWhile_cons_of_pos hc,
    List.dropWhile_cons_of_pos hc]
  exact read_word

/-- A text that does not go on with a word. -/
theorem takeWhile_ends (hend : ∀ c ∈ cs.head?, isIdent T c = false) :
    cs.takeWhile (isIdent T) = [] ∧ cs.dropWhile (isIdent T) = cs := by
  cases cs with
  | nil => exact ⟨rfl, rfl⟩
  | cons c cs =>
    have hc : ¬ isIdent T c = true := by rw [hend c rfl]; exact Bool.false_ne_true
    exact ⟨List.takeWhile_cons_of_neg hc, List.dropWhile_cons_of_neg hc⟩

/-- A word before a text that does not go on with it. -/
theorem takeWhile_word (hw : ∀ c ∈ w, isIdent T c = true)
    (hend : ∀ c ∈ cs.head?, isIdent T c = false) :
    (w ++ cs).takeWhile (isIdent T) = w ∧ (w ++ cs).dropWhile (isIdent T) = cs := by
  obtain ⟨htake, hdrop⟩ := takeWhile_ends hend
  rw [List.takeWhile_append_of_pos hw, List.dropWhile_append_of_pos hw, htake, hdrop]
  exact ⟨List.append_nil _, rfl⟩

/-- A word whose end is known. -/
theorem read_word_append (hne : w ≠ []) (hw : ∀ c ∈ w, isIdent T c = true)
    (hend : ∀ c ∈ cs.head?, isIdent T c = false) :
    (lexer T).read (inCode d) (w ++ cs) = ⟨d, tokenOf w⟩ :: (lexer T).read (inCode d) cs := by
  obtain ⟨htake, hdrop⟩ := takeWhile_word hw hend
  cases w with
  | nil => exact absurd rfl hne
  | cons c w =>
    rw [List.cons_append, read_ident (hw c List.mem_cons_self), ← List.cons_append, htake, hdrop]

theorem isIdent_space (hc : isPySpace c = true) : isIdent T c = false := by
  have hnot : c ∉ ['@', '#', '$', '.'] := by
    simp only [List.mem_cons, List.not_mem_nil, or_false]
    rintro (rfl | rfl | rfl | rfl) <;> exact absurd hc (by decide)
  rw [isIdent, T.word_space c hc, Bool.false_or, decide_eq_false hnot]

theorem freshStep_space (hc : isPySpace c = true) : freshStep T d c = ([], inCode d) := by
  have hident : ¬ isIdent T c = true := by rw [isIdent_space hc]; exact Bool.false_ne_true
  unfold freshStep
  split_ifs
  rfl

/-- White space is skipped. -/
theorem read_spaces {sp : List Char} (hsp : ∀ c ∈ sp, isPySpace c = true) :
    (lexer T).read (inCode d) (sp ++ cs) = (lexer T).read (inCode d) cs := by
  refine Transducer.read_quiet (T := lexer T) (p := fun c => isPySpace c = true) (fun c hc => ?_) hsp
  rw [inCode, step_code rfl, freshStep_space hc]
  rfl

/-- One blank is skipped. -/
theorem read_blank : (lexer T).read (inCode d) (' ' :: cs) = (lexer T).read (inCode d) cs :=
  have hspace : ∀ c ∈ [' '], isPySpace c = true := fun c hc => by
    rw [List.mem_singleton.mp hc]
    rfl
  read_spaces hspace

/-! ## Reading inside parentheses -/

/-- The same token inside one more parenthesis. -/
def Placed.deeper (t : Placed) : Placed := { t with depth := t.depth + 1 }

/-- The same state inside one more parenthesis. -/
def State.deeper (s : State) : State := { s with depth := s.depth + 1 }

theorem flush_deeper : held.flush (d + 1) = (held.flush d).map Placed.deeper := by
  cases held <;> rfl

theorem freshStep_deeper :
    freshStep T (d + 1) c = ((freshStep T d c).1.map Placed.deeper, (freshStep T d c).2.deeper) := by
  unfold freshStep
  split_ifs
  · rfl
  · rfl
  · split <;> simp [Placed.deeper, State.deeper]

theorem step_deeper (s : State) (c : Char) : (lexer T).step s.deeper c =
    (((lexer T).step s c).1.map Placed.deeper, ((lexer T).step s c).2.deeper) := by
  obtain ⟨mode, d⟩ := s
  cases mode with
  | code held =>
    rw [State.deeper]
    cases hext : held.extend T c with
    | none =>
      rw [step_code hext, step_code hext, flush_deeper, freshStep_deeper, List.map_append]
    | some m =>
      rw [step_extend hext, step_extend hext]
      rfl
  | quoted q => rfl
  | lineComment => rfl
  | blockComment n last => rfl

/-! ## Cutting a text where a keyword starts -/

variable {s : State} {u v x y : List Char}

/-- What a state leaves when the text ends is what it holds. -/
theorem tokens_append (hafter : (lexer T).after (inCode 0) u = ⟨.code held, d⟩)
    (hext : ∀ c ∈ v.head?, held.extend T c = none) :
    tokens T (u ++ v) = tokens T u ++ (lexer T).read (inCode d) v := by
  have hu : tokens T u = (lexer T).output (inCode 0) u ++ held.flush d := by
    rw [tokens, Transducer.read, hafter]
    rfl
  rw [hu, tokens, Transducer.read_append, hafter, read_code hext, List.append_assoc]

theorem keywordFrom_eq_some_iff : keywordFrom T s u v = some (d, k) ↔
    ∃ held, (lexer T).after s u = ⟨.code held, d⟩ ∧ (∀ c ∈ v.head?, held.extend T c = none) ∧
      tokenOf (v.takeWhile (isIdent T)) = .keyword k := by
  unfold keywordFrom
  constructor
  · intro h
    split at h
    · rename_i held d' hafter
      split at h
      · rename_i k' hext htoken
        cases h
        refine ⟨held, hafter, fun c hc => ?_, htoken⟩
        rw [Option.mem_def.mp hc] at hext
        exact hext
      · cases h
    · cases h
  · rintro ⟨held, hafter, hext, htoken⟩
    have hbind : v.head?.bind (held.extend T) = none := by
      cases hv : v.head? with
      | none => rfl
      | some c => exact hext c hv
    rw [hafter]
    simp only [hbind, htoken]

theorem keywordFrom_cons : keywordFrom T s (c :: u) v = keywordFrom T ((lexer T).step s c).2 u v := rfl

/-- The text behind the place where a keyword starts begins with a word character. -/
theorem exists_ident_of_keyword (h : tokenOf (v.takeWhile (isIdent T)) = .keyword k) :
    ∃ c v', v = c :: v' ∧ isIdent T c = true := by
  cases v with
  | nil => cases h
  | cons c v' =>
    by_cases hc : isIdent T c = true
    · exact ⟨c, v', rfl, hc⟩
    · rw [List.takeWhile_cons_of_neg hc] at h
      cases h

/-- A word goes on to its end. -/
theorem after_word (hy : ∀ c ∈ y, isIdent T c = true) :
    (lexer T).after ⟨.code (.word w), d⟩ y = ⟨.code (.word (w ++ y)), d⟩ := by
  induction y generalizing w with
  | nil => rw [List.append_nil]; rfl
  | cons c y ih =>
    obtain ⟨hc, hy⟩ := List.forall_mem_cons.mp hy
    rw [Transducer.after_cons, step_extend (extend_word hc), ih hy, List.append_assoc,
      List.singleton_append]

/-- A word starts where what is held ends. -/
theorem after_fresh_word (hext : held.extend T c = none) (hc : isIdent T c = true)
    (hy : ∀ c ∈ y, isIdent T c = true) :
    (lexer T).after ⟨.code held, d⟩ (c :: y) = ⟨.code (.word (c :: y)), d⟩ := by
  rw [Transducer.after_cons, step_code hext, freshStep_ident hc, after_word hy, List.singleton_append]

/-- **A keyword cut out of a text**: what is before it, its word, and what is behind. -/
structure KeywordCut (T : CharTable) (d : ℤ) (k : Keyword) (u w v : List Char) : Prop where
  /-- What is held before the word does not go on with it. -/
  fresh : ∃ held, (lexer T).after (inCode 0) u = ⟨.code held, d⟩ ∧
    ∀ c ∈ w.head?, held.extend T c = none
  /-- The word is one. -/
  ident : ∀ c ∈ w, isIdent T c = true
  /-- The word is the keyword. -/
  token : tokenOf w = .keyword k
  /-- The word ends where it does. -/
  ends : ∀ c ∈ v.head?, isIdent T c = false

theorem exists_keywordCut (h : keywordAt T u v = some (d, k)) :
    ∃ w v', v = w ++ v' ∧ KeywordCut T d k u w v' := by
  obtain ⟨held, hafter, hext, htoken⟩ := keywordFrom_eq_some_iff.mp h
  obtain ⟨c, v'', rfl, hc⟩ := exists_ident_of_keyword htoken
  refine ⟨(c :: v'').takeWhile (isIdent T), (c :: v'').dropWhile (isIdent T),
    (List.takeWhile_append_dropWhile).symm, ⟨held, hafter, fun c' hc' => hext c' ?_⟩,
    fun c' hc' => List.mem_takeWhile_imp hc', htoken, fun c' hc' => ?_⟩
  · rwa [List.takeWhile_cons_of_pos hc] at hc'
  · have hend := List.head?_dropWhile_not (isIdent T) (c :: v'')
    rw [Option.mem_def.mp hc'] at hend
    exact hend

namespace KeywordCut

theorem length_eq (h : KeywordCut T d k u w v) : w.length = k.spelling.length := by
  rw [← tokenOf_eq_keyword h.token, List.length_map]

theorem ne_nil (h : KeywordCut T d k u w v) : w ≠ [] := by
  rintro rfl
  cases h.token

/-- **The tokens of the text**, whatever stands behind the keyword. -/
theorem tokens_eq (h : KeywordCut T d k u w v) {z : List Char}
    (hz : ∀ c ∈ z.head?, isIdent T c = false) :
    tokens T (u ++ (w ++ z)) = tokens T u ++ ⟨d, .keyword k⟩ :: (lexer T).read (inCode d) z := by
  obtain ⟨held, hafter, hext⟩ := h.fresh
  have hhead : ∀ c ∈ (w ++ z).head?, held.extend T c = none := by
    intro c hc
    rw [List.head?_append_of_ne_nil _ h.ne_nil] at hc
    exact hext c hc
  rw [tokens_append hafter hhead, read_word_append h.ne_nil h.ident hz, h.token]

/-- What is held before the keyword does not go on with another word either. -/
theorem tokens_letter (h : KeywordCut T d k u w v) {z : List Char} :
    tokens T (u ++ 'S' :: z) = tokens T u ++ (lexer T).read (inCode d) ('S' :: z) := by
  obtain ⟨held, hafter, hext⟩ := h.fresh
  refine tokens_append hafter ?_
  rintro c ⟨⟩
  cases held with
  | word w₀ =>
    cases w with
    | nil => exact absurd rfl h.ne_nil
    | cons c w =>
      have hnone := hext c rfl
      rw [extend_word (h.ident c List.mem_cons_self)] at hnone
      cases hnone
  | dash => rfl
  | slash => rfl
  | closed q => cases q <;> rfl
  | nothing => rfl

end KeywordCut

/-! ## Where the keywords among the tokens start -/

/-- A character in code starts a word, or writes no keyword and starts none. -/
theorem freshStep_cases (d : ℤ) (c : Char) :
    (isIdent T c = true ∧ freshStep T d c = ([], ⟨.code (.word [c]), d⟩)) ∨
      ((∀ t ∈ (freshStep T d c).1, ∀ k, t.token ≠ .keyword k) ∧
        ∀ w, (freshStep T d c).2.mode ≠ .code (.word w)) := by
  by_cases hc : isIdent T c = true
  · exact .inl ⟨hc, freshStep_ident hc⟩
  · refine .inr ?_
    unfold freshStep
    rw [if_neg hc]
    split_ifs
    · exact ⟨nofun, nofun⟩
    · split <;> simp

/-- A word in a quote or a comment starts after it. -/
theorem inside_ne_word {m : Mode} (hm : ∀ held, m ≠ .code held) (w : List Char) :
    m.inside c ≠ .code (.word w) := by
  cases m with
  | code held => exact absurd rfl (hm held)
  | quoted q => simp only [Mode.inside]; split <;> simp
  | lineComment => simp only [Mode.inside]; split <;> simp
  | blockComment n last => simp only [Mode.inside]; split_ifs <;> simp

/-- What goes on as a word was one. -/
theorem extend_eq_word (h : held.extend T c = some (.code (.word w))) :
    ∃ w₀, held = .word w₀ ∧ w = w₀ ++ [c] ∧ isIdent T c = true := by
  cases held with
  | word w₀ =>
    by_cases hc : isIdent T c = true
    · rw [extend_word hc] at h
      cases h
      exact ⟨w₀, rfl, rfl, hc⟩
    · rw [extend_word_eq_none (by simpa using hc)] at h
      cases h
  | dash => simp only [Pending.extend] at h; split at h <;> cases h
  | slash => simp only [Pending.extend] at h; split at h <;> cases h
  | closed q => simp only [Pending.extend] at h; split at h <;> cases h
  | nothing => cases h

theorem mem_flush_keyword {d₀ : ℤ} (h : ⟨d, .keyword k⟩ ∈ held.flush d₀) :
    ∃ w, held = .word w ∧ d = d₀ ∧ tokenOf w = .keyword k := by
  cases held with
  | word w =>
    obtain h := List.mem_singleton.mp h
    rw [Placed.mk.injEq] at h
    exact ⟨w, rfl, h.1, h.2.symm⟩
  | dash => cases List.mem_singleton.mp h
  | slash => cases List.mem_singleton.mp h
  | closed q => cases List.mem_singleton.mp h
  | nothing => cases h

/-- **A keyword that is read** ends a word already begun, or starts in the text. -/
theorem keyword_of_mem_read {s : State} (h : ⟨d, .keyword k⟩ ∈ (lexer T).read s v) :
    (∃ w, s = ⟨.code (.word w), d⟩ ∧ tokenOf (w ++ v.takeWhile (isIdent T)) = .keyword k) ∨
      ∃ x y, v = x ++ y ∧ keywordFrom T s x y = some (d, k) := by
  induction v generalizing s with
  | nil =>
    obtain ⟨mode, d₀⟩ := s
    rw [Transducer.read_nil] at h
    cases mode with
    | code held =>
      obtain ⟨w, rfl, rfl, htoken⟩ := mem_flush_keyword (show _ ∈ held.flush d₀ from h)
      exact .inl ⟨w, rfl, by rw [List.takeWhile_nil, List.append_nil]; exact htoken⟩
    | quoted q => cases List.mem_singleton.mp (show _ ∈ [_] from h)
    | lineComment => cases h
    | blockComment n last => cases List.mem_singleton.mp (show _ ∈ [_] from h)
  | cons c v ih =>
    obtain ⟨mode, d₀⟩ := s
    -- a keyword that starts later in the text starts there from `s` too
    have hlater : ∀ {x y}, v = x ++ y →
        keywordFrom T ((lexer T).step ⟨mode, d₀⟩ c).2 x y = some (d, k) →
        ∃ x y, c :: v = x ++ y ∧ keywordFrom T ⟨mode, d₀⟩ x y = some (d, k) :=
      fun {x y} hv hk => ⟨c :: x, y, by rw [hv, List.cons_append], hk⟩
    rw [Transducer.read_cons] at h
    by_cases hmode : ∃ held, mode = .code held
    · obtain ⟨held, rfl⟩ := hmode
      cases hext : held.extend T c with
      | some m =>
        rw [step_extend hext] at h hlater
        rcases ih h with ⟨w, hm, htoken⟩ | ⟨x, y, hv, hk⟩
        · cases hm
          obtain ⟨w₀, rfl, rfl, hc⟩ := extend_eq_word hext
          refine .inl ⟨w₀, rfl, ?_⟩
          rw [List.takeWhile_cons_of_pos hc]
          rwa [List.append_assoc] at htoken
        · exact .inr (hlater hv hk)
      | none =>
        rw [step_code hext] at h hlater
        rcases List.mem_append.mp h with hnow | hrest
        · rcases List.mem_append.mp hnow with hflush | hfresh
          · obtain ⟨w, rfl, rfl, htoken⟩ := mem_flush_keyword hflush
            have hc : ¬ isIdent T c = true := fun hc => by rw [extend_word hc] at hext; cases hext
            refine .inl ⟨w, rfl, ?_⟩
            rwa [List.takeWhile_cons_of_neg hc, List.append_nil]
          · rcases freshStep_cases d₀ c with ⟨-, hword⟩ | ⟨hno, -⟩
            · rw [hword] at hfresh
              cases hfresh
            · exact absurd rfl (hno _ hfresh k)
        · rcases ih hrest with ⟨w, hfresh, htoken⟩ | ⟨x, y, hv, hk⟩
          · rcases freshStep_cases d₀ c with ⟨hc, hword⟩ | ⟨-, hno⟩
            · rw [hword] at hfresh
              cases hfresh
              refine .inr ⟨[], c :: v, rfl, keywordFrom_eq_some_iff.mpr ⟨held, rfl, ?_, ?_⟩⟩
              · rintro c' hc'
                cases hc'
                exact hext
              · rwa [List.takeWhile_cons_of_pos hc]
            · exact absurd (congrArg State.mode hfresh) (hno w)
          · exact .inr (hlater hv hk)
    · have hm : ∀ held, mode ≠ .code held := fun held heq => hmode ⟨held, heq⟩
      rw [step_inside hm] at h hlater
      rcases ih h with ⟨w, hw, -⟩ | ⟨x, y, hv, hk⟩
      · exact absurd (congrArg State.mode hw) (inside_ne_word hm w)
      · exact .inr (hlater hv hk)

/-! ## The outermost places of a keyword -/

theorem mem_outermost {sql : List Char} {p : ℕ} : p ∈ outermost T k sql ↔
    ∃ u v, sql = u ++ v ∧ u.length = p ∧ keywordAt T u v = some (0, k) := by
  rw [outermost, List.mem_filter, List.mem_range, decide_eq_true_eq]
  constructor
  · rintro ⟨hp, hk⟩
    exact ⟨sql.take p, sql.drop p, (List.take_append_drop p sql).symm,
      List.length_take_of_le hp.le, hk⟩
  · rintro ⟨u, v, rfl, rfl, hk⟩
    obtain ⟨-, -, -, htoken⟩ := keywordFrom_eq_some_iff.mp hk
    obtain ⟨c, v', rfl, -⟩ := exists_ident_of_keyword htoken
    rw [List.take_left, List.drop_left, List.length_append, List.length_cons]
    exact ⟨by omega, hk⟩

/-- The places are in the order of the text. -/
theorem outermost_sorted {sql : List Char} : (outermost T k sql).Pairwise (· < ·) :=
  List.pairwise_lt_range.filter _

/-- A keyword of a text stays one when a text follows that what is held does not go on with. -/
theorem keywordFrom_append (hafter : (lexer T).after s (x ++ y) = ⟨.code held, 0⟩)
    (hext : ∀ c ∈ v.head?, held.extend T c = none) (hk : keywordFrom T s x y = some (d, k)) :
    keywordFrom T s x (y ++ v) = some (d, k) := by
  obtain ⟨held₀, hx, hext₀, htoken⟩ := keywordFrom_eq_some_iff.mp hk
  obtain ⟨c, y', rfl, hc⟩ := exists_ident_of_keyword htoken
  refine keywordFrom_eq_some_iff.mpr ⟨held₀, hx, hext₀, ?_⟩
  rw [← htoken, List.takeWhile_append]
  split
  · rename_i hlen
    have hall : ∀ c' ∈ c :: y', isIdent T c' = true := by
      rw [← List.takeWhile_eq_self_iff]
      exact (List.takeWhile_prefix _).eq_of_length hlen
    -- the word ends with the first text, so it is held there and the second does not go on with it
    obtain rfl : held = .word (c :: y') := by
      rw [Transducer.after_append, hx, after_fresh_word (hext₀ c rfl) hc
        (List.forall_mem_cons.mp hall).2] at hafter
      cases hafter
      rfl
    have hv : v.takeWhile (isIdent T) = [] := by
      cases v with
      | nil => rfl
      | cons c' v' =>
        refine List.takeWhile_cons_of_neg fun hc' => ?_
        have hnone := hext c' rfl
        rw [extend_word hc'] at hnone
        cases hnone
    rw [hv, List.append_nil, List.takeWhile_eq_self_iff.mpr hall]
  · rfl

/-- **Before the first place** the keyword is not among the outermost tokens. -/
theorem KeywordCut.not_mem_before (h : KeywordCut T 0 k u w v)
    (hfirst : ∀ p ∈ outermost T k (u ++ (w ++ v)), u.length ≤ p) : ⟨0, .keyword k⟩ ∉ tokens T u := by
  intro hmem
  obtain ⟨held, hafter, hext⟩ := h.fresh
  have hhead : ∀ c ∈ (w ++ v).head?, held.extend T c = none := by
    intro c hc
    rw [List.head?_append_of_ne_nil _ h.ne_nil] at hc
    exact hext c hc
  rcases keyword_of_mem_read hmem with ⟨w', hw', -⟩ | ⟨x, y, rfl, hk⟩
  · cases hw'
  · obtain ⟨-, -, -, htoken⟩ := keywordFrom_eq_some_iff.mp hk
    obtain ⟨c, y', rfl, -⟩ := exists_ident_of_keyword htoken
    have hplace := hfirst x.length (mem_outermost.mpr ⟨x, (c :: y') ++ (w ++ v),
      by rw [List.append_assoc], rfl, keywordFrom_append hafter hhead hk⟩)
    rw [List.length_append, List.length_cons] at hplace
    omega

/-- Behind a word that has ended the text is read as code. -/
theorem keywordFrom_word (hend : ∀ c ∈ (x ++ y).head?, isIdent T c = false)
    (hk : keywordFrom T (inCode d) x y = some (0, k)) :
    keywordFrom T ⟨.code (.word w), d⟩ x y = some (0, k) := by
  cases x with
  | nil =>
    obtain ⟨-, -, -, htoken⟩ := keywordFrom_eq_some_iff.mp hk
    obtain ⟨c, y', rfl, hc⟩ := exists_ident_of_keyword htoken
    rw [hend c rfl] at hc
    cases hc
  | cons c x =>
    rw [keywordFrom_cons, inCode, step_code rfl] at hk
    rwa [keywordFrom_cons, step_code (extend_word_eq_none (hend c rfl))]

/-- **Behind the last place** the keyword is not among the outermost tokens. -/
theorem KeywordCut.not_mem_behind (h : KeywordCut T 0 k u w v)
    (hlast : ∀ p ∈ outermost T k (u ++ (w ++ v)), p ≤ u.length) :
    ⟨0, .keyword k⟩ ∉ (lexer T).read (inCode 0) v := by
  intro hmem
  obtain ⟨held, hafter, hext⟩ := h.fresh
  rcases keyword_of_mem_read hmem with ⟨w', hw', -⟩ | ⟨x, y, rfl, hk⟩
  · cases hw'
  · have huw : (lexer T).after (inCode 0) (u ++ w) = ⟨.code (.word w), 0⟩ := by
      cases w with
      | nil => exact absurd rfl h.ne_nil
      | cons c w =>
        obtain ⟨hc, hw⟩ := List.forall_mem_cons.mp h.ident
        rw [Transducer.after_append, hafter, after_fresh_word (hext c rfl) hc hw]
    have hkey : keywordAt T (u ++ w ++ x) y = some (0, k) := by
      rw [← keywordFrom_word h.ends hk, keywordAt, keywordFrom, keywordFrom, Transducer.after_append,
        huw]
    have hplace := hlast (u ++ w ++ x).length
      (mem_outermost.mpr ⟨u ++ w ++ x, y, by simp only [List.append_assoc], rfl, hkey⟩)
    have hpos := List.length_pos_of_ne_nil h.ne_nil
    simp only [List.length_append] at hplace
    omega

/-! ## Counting parentheses -/

/-- How many parentheses some tokens open that they do not close. -/
def opened (ts : List Placed) : ℤ :=
  ts.countP (·.token = .openParen) - ts.countP (·.token = .closeParen)

theorem opened_append {A B : List Placed} : opened (A ++ B) = opened A + opened B := by
  simp only [opened, List.countP_append]
  omega

/-- What is held opens and closes nothing. -/
theorem opened_flush {d₀ : ℤ} : opened (held.flush d₀) = 0 := by
  cases held with
  | word w =>
    have hne : tokenOf w ≠ .openParen ∧ tokenOf w ≠ .closeParen := by
      unfold tokenOf
      split
      · exact ⟨nofun, nofun⟩
      · split <;> exact ⟨nofun, nofun⟩
    simp [opened, Pending.flush, hne.1, hne.2]
  | dash => rfl
  | slash => rfl
  | closed q => rfl
  | nothing => rfl

theorem depth_freshStep {d₀ : ℤ} :
    (freshStep T d₀ c).2.depth = d₀ + opened (freshStep T d₀ c).1 := by
  unfold freshStep
  split_ifs
  · exact (add_zero _).symm
  · exact (add_zero _).symm
  · split <;> simp [opened]
    omega

/-- **The depth is what the tokens open.** -/
theorem depth_after {s : State} {cs : List Char} :
    ((lexer T).after s cs).depth = s.depth + opened ((lexer T).output s cs) := by
  induction cs generalizing s with
  | nil => exact (add_zero _).symm
  | cons c cs ih =>
    have hstep : ((lexer T).step s c).2.depth = s.depth + opened ((lexer T).step s c).1 := by
      obtain ⟨mode, d₀⟩ := s
      cases mode with
      | code held =>
        cases hext : held.extend T c with
        | none =>
          rw [step_code hext, opened_append, opened_flush, zero_add]
          exact depth_freshStep
        | some m =>
          rw [step_extend hext]
          exact (add_zero _).symm
      | quoted q => exact (add_zero _).symm
      | lineComment => exact (add_zero _).symm
      | blockComment n last => exact (add_zero _).symm
    rw [Transducer.after_cons, ih, hstep, Transducer.output_cons, opened_append, add_assoc]

/-- A text that ends in code has opened the parentheses it is in. -/
theorem opened_tokens (hafter : (lexer T).after (inCode 0) u = ⟨.code held, d⟩) :
    opened (tokens T u) = d := by
  have hdepth : ((lexer T).after (inCode 0) u).depth = (inCode 0).depth + opened _ := depth_after
  rw [hafter, inCode, zero_add] at hdepth
  rw [tokens, Transducer.read, hafter, opened_append,
    show (lexer T).finish ⟨.code held, d⟩ = held.flush d from rfl, opened_flush, add_zero]
  exact hdepth.symm

end Tsql

end LocalSqlAgent
