import LocalSqlAgent.Lib.Respaced
import LocalSqlAgent.Tsql.Lexing

/-! # What of a text is quoted

Which characters of a T-SQL text stand in a string literal or a quoted identifier, by the modes of the
lexer: an opening quote, everything up to its close and the close itself. A comment quotes nothing.

* **`marks`**: the text with each character's place.
* **`skeleton`**: the text without the white space that no quote holds.
* **`Mode.settle`**: white space leaves every mode the same, except that a line break ends a line comment. -/

namespace LocalSqlAgent

namespace Tsql

/-- Where a character stands. -/
inductive Mark where
  /-- In no quote. -/
  | outside
  /-- It opens one. -/
  | opens
  /-- In one, or its close. -/
  | inside
  deriving DecidableEq, Repr

variable (T : CharTable)

/-- The mode behind one more character; it does not depend on the open parentheses. -/
def Mode.next (m : Mode) (c : Char) : Mode := ((lexer T).step ⟨m, 0⟩ c).2.mode

/-- Where a character read in a mode stands. A doubled close stays inside. -/
def Mode.mark : Mode → Char → Mark
  | .quoted _, _ => .inside
  | .code held, c =>
    match held.extend T c with
    | some (.quoted _) => .inside
    | some _ => .outside
    | none => if c ∈ ['\'', '"', '['] then .opens else .outside
  | _, _ => .outside

/-- The characters of a text read from a mode, with their places. -/
def marks : Mode → List Char → List (Char × Mark)
  | _, [] => []
  | m, c :: cs => (c, m.mark T c) :: marks (m.next T c) cs

/-- The mode behind a text. -/
def Mode.after (m : Mode) (cs : List Char) : Mode := cs.foldl (Mode.next T) m

/-- Where a text starts. -/
def Mode.start : Mode := .code .nothing

/-- White space that no quote holds. -/
def isOuterSpace (x : Char × Mark) : Bool := x.2 = .outside && isPySpace x.1

/-- **What is left without the white space outside quotes**: every other character, with its place. -/
def skeleton (sql : List Char) : List (Char × Mark) := (marks T .start sql).filter (! isOuterSpace ·)

/-- No character is quoted when the text is read from a mode. -/
def Quiet (m : Mode) (cs : List Char) : Prop := ∀ x ∈ marks T m cs, x.2 = .outside

/-- The mode behind white space that breaks no line. -/
def Mode.settle (m : Mode) : Mode := m.next T ' '

variable {T} {m : Mode} {c d : Char} {cs u v : List Char} {q : Quote} {held : Pending}

/-! ## Reading -/

/-- The modes are the lexer's. -/
theorem mode_step (s : State) : ((lexer T).step s c).2.mode = s.mode.next T c := by
  obtain ⟨mode, depth⟩ := s
  cases mode with
  | code held =>
    rw [Mode.next]
    cases hext : held.extend T c with
    | some m => rw [step_extend hext, step_extend hext]
    | none =>
      rw [step_code hext, step_code hext]
      unfold freshStep
      split_ifs
      · rfl
      · rfl
      · split <;> rfl
  | quoted q => rfl
  | lineComment => rfl
  | blockComment n last => rfl

theorem mode_after (s : State) : ((lexer T).after s cs).mode = s.mode.after T cs := by
  induction cs generalizing s with
  | nil => rfl
  | cons c cs ih => rw [Transducer.after_cons, ih, mode_step]; rfl

theorem next_inside (hm : ∀ held, m ≠ .code held) : m.next T c = m.inside c := by
  rw [Mode.next, step_inside hm]

theorem next_extend {m : Mode} (hext : held.extend T c = some m) : (Mode.code held).next T c = m := by
  rw [Mode.next, step_extend hext]

theorem next_fresh (hext : held.extend T c = none) :
    (Mode.code held).next T c = (freshStep T 0 c).2.mode := by
  rw [Mode.next, step_code hext]

theorem marks_append : marks T m (u ++ v) = marks T m u ++ marks T (m.after T u) v := by
  induction u generalizing m with
  | nil => rfl
  | cons c u ih => rw [List.cons_append, marks, ih]; rfl

theorem map_fst_marks : (marks T m cs).map Prod.fst = cs := by
  induction cs generalizing m with
  | nil => rfl
  | cons c cs ih => rw [marks, List.map_cons, ih]

theorem quiet_cons : Quiet T m (c :: cs) ↔ m.mark T c = .outside ∧ Quiet T (m.next T c) cs := by
  rw [Quiet, marks, List.forall_mem_cons]
  rfl

/-! ## White space -/

theorem extend_space (hc : isPySpace c = true) : held.extend T c = none := by
  cases held with
  | nothing => rfl
  | word w => exact extend_word_eq_none (isIdent_space hc)
  | dash =>
    refine if_neg ?_
    rintro rfl
    exact absurd hc (by decide)
  | slash =>
    refine if_neg ?_
    rintro rfl
    exact absurd hc (by decide)
  | closed q =>
    refine if_neg ?_
    rintro rfl
    cases q <;> exact absurd hc (by decide)

theorem next_code_space (hc : isPySpace c = true) : (Mode.code held).next T c = .start := by
  rw [next_fresh (extend_space hc), freshStep_space hc]
  rfl

theorem mark_space (hm : ∀ q, m ≠ .quoted q) (hc : isPySpace c = true) : m.mark T c = .outside := by
  cases m with
  | code held =>
    rw [Mode.mark, extend_space hc]
    refine if_neg fun hmem => ?_
    simp only [List.mem_cons, List.not_mem_nil, or_false] at hmem
    rcases hmem with rfl | rfl | rfl <;> exact absurd hc (by decide)
  | quoted q => exact absurd rfl (hm q)
  | lineComment => rfl
  | blockComment n last => rfl

theorem settle_quoted : (Mode.quoted q).settle T = .quoted q := by
  rw [Mode.settle, next_inside (fun _ h => by cases h)]
  cases q <;> rfl

theorem settle_lineComment : Mode.lineComment.settle T = .lineComment := rfl

theorem next_block_space {n : ℕ} {last : Char} (hc : isPySpace c = true) :
    (Mode.blockComment n last).next T c = .blockComment n c := by
  have hslash : ¬ (last = '*' ∧ c = '/') := by
    rintro ⟨-, rfl⟩
    exact absurd hc (by decide)
  have hstar : ¬ (last = '/' ∧ c = '*') := by
    rintro ⟨-, rfl⟩
    exact absurd hc (by decide)
  rw [next_inside (fun _ h => by cases h), Mode.inside, if_neg hslash, if_neg hstar]

/-- White space is no half of a comment's mark. -/
theorem next_block_of_space {n : ℕ} (hd : isPySpace d = true) :
    (Mode.blockComment n d).next T c = .blockComment n c := by
  have hslash : ¬ (d = '*' ∧ c = '/') := by
    rintro ⟨rfl, -⟩
    exact absurd hd (by decide)
  have hstar : ¬ (d = '/' ∧ c = '*') := by
    rintro ⟨rfl, -⟩
    exact absurd hd (by decide)
  rw [next_inside (fun _ h => by cases h), Mode.inside, if_neg hslash, if_neg hstar]

theorem settle_eq_lineComment : m.settle T = .lineComment ↔ m = .lineComment := by
  cases m with
  | code held => rw [Mode.settle, next_code_space rfl]; exact iff_of_false (by simp [Mode.start]) (by simp)
  | quoted q => rw [settle_quoted]
  | lineComment => exact Iff.rfl
  | blockComment n last => rw [Mode.settle, next_block_space rfl]; simp

/-- **Behind a gap**: a mode that white space, more or less of it, leads to. -/
structure PastGap (T : CharTable) (m x : Mode) : Prop where
  settle : x.settle T = m.settle T
  next : ∀ c, x.next T c = (m.settle T).next T c
  mark : ∀ c, x.mark T c = (m.settle T).mark T c
  notQuoted : ∀ q, x ≠ .quoted q

theorem pastGap_next (hquoted : ∀ q, m ≠ .quoted q) (hline : m = .lineComment → c ≠ '\n' ∧ c ≠ '\r')
    (hc : isPySpace c = true) : PastGap T m (m.next T c) := by
  cases m with
  | code held =>
    have hsettle : (Mode.code held).settle T = .start := next_code_space rfl
    rw [next_code_space hc]
    exact ⟨hsettle.symm ▸ next_code_space rfl, fun d => by rw [hsettle], fun d => by rw [hsettle],
      fun q h => by cases h⟩
  | quoted q => exact absurd rfl (hquoted q)
  | lineComment =>
    obtain ⟨hn, hr⟩ := hline rfl
    have hnext : Mode.lineComment.next T c = .lineComment := if_neg (not_or.mpr ⟨hn, hr⟩)
    rw [hnext]
    exact ⟨rfl, fun d => rfl, fun d => rfl, fun q h => by cases h⟩
  | blockComment n last =>
    have hsettle : (Mode.blockComment n last).settle T = .blockComment n ' ' := next_block_space rfl
    rw [next_block_space hc]
    refine ⟨hsettle.symm ▸ next_block_space rfl, fun d => ?_, fun d => by rw [hsettle]; rfl, fun q h => by cases h⟩
    rw [hsettle, next_block_of_space hc, next_block_of_space rfl]

theorem PastGap.trans {x y : Mode} (hx : PastGap T m x) (hy : PastGap T x y) : PastGap T m y where
  settle := hy.settle.trans hx.settle
  next := by rw [← hx.settle]; exact hy.next
  mark := by rw [← hx.settle]; exact hy.mark
  notQuoted := hy.notQuoted

/-! ## Quiet texts -/

/-- A character that is not quoted opens no quote. -/
theorem next_ne_quoted (hquoted : ∀ q, m ≠ .quoted q) (hmark : m.mark T c = .outside) :
    m.next T c ≠ .quoted q := by
  cases m with
  | code held =>
    rw [Mode.mark] at hmark
    cases hext : held.extend T c with
    | some m =>
      rw [hext] at hmark
      rw [next_extend hext]
      rintro rfl
      cases hmark
    | none =>
      rw [hext] at hmark
      have hplain : c ∉ ['\'', '"', '['] := by
        intro hmem
        rw [if_pos hmem] at hmark
        cases hmark
      rw [next_fresh hext]
      unfold freshStep
      split_ifs
      · simp
      · simp
      · split <;> simp_all
  | quoted q => exact absurd rfl (hquoted q)
  | lineComment =>
    rw [next_inside (fun _ h => by cases h), Mode.inside]
    split <;> simp
  | blockComment n last =>
    rw [next_inside (fun _ h => by cases h), Mode.inside]
    split_ifs <;> simp

/-- Every piece of white space made a blank; no line breaks any more. -/
def blanked (cs : List Char) : List Char := cs.map fun c => if isPySpace c then ' ' else c

theorem blanked_cons_space (hc : isPySpace c = true) : blanked (c :: cs) = ' ' :: blanked cs := by
  rw [blanked, List.map_cons, if_pos hc, blanked]

theorem blanked_cons_char (hc : isPySpace c = false) : blanked (c :: cs) = c :: blanked cs := by
  rw [blanked, List.map_cons, if_neg (by rw [hc]; exact Bool.false_ne_true), blanked]

theorem blanked_no_break : ∀ c ∈ blanked cs, c ≠ '\n' ∧ c ≠ '\r' := by
  intro c hc
  obtain ⟨d, -, rfl⟩ := List.mem_map.mp hc
  split
  · decide
  · rename_i hd
    refine ⟨?_, ?_⟩ <;> rintro rfl <;> exact hd rfl

/-- **A line comment without a line break goes to the end.** -/
theorem after_lineComment (h : ∀ c ∈ cs, c ≠ '\n' ∧ c ≠ '\r') :
    Mode.lineComment.after T cs = .lineComment ∧ Quiet T .lineComment cs := by
  induction cs with
  | nil => exact ⟨rfl, fun x hx => absurd hx List.not_mem_nil⟩
  | cons c cs ih =>
    obtain ⟨hc, hcs⟩ := List.forall_mem_cons.mp h
    have hnext : Mode.lineComment.next T c = .lineComment := if_neg (not_or.mpr hc)
    rw [Mode.after, List.foldl_cons, hnext, quiet_cons, hnext]
    exact ⟨(ih hcs).1, rfl, (ih hcs).2⟩

theorem quiet_append : Quiet T m (u ++ v) ↔ Quiet T m u ∧ Quiet T (m.after T u) v := by
  rw [Quiet, marks_append, List.forall_mem_append]
  rfl

/-- Of a quiet text, all that is not white space is left. -/
theorem filter_of_quiet (h : Quiet T m cs) :
    (marks T m cs).filter (! isOuterSpace ·) = (cs.filter (! isPySpace ·)).map (·, .outside) := by
  induction cs generalizing m with
  | nil => rfl
  | cons c cs ih =>
    obtain ⟨hmark, hcs⟩ := quiet_cons.mp h
    rw [marks, hmark]
    cases hc : isPySpace c with
    | true =>
      rw [List.filter_cons_of_neg (by simp [isOuterSpace, hc]), List.filter_cons_of_neg (by simp [hc]), ih hcs]
    | false =>
      rw [List.filter_cons_of_pos (by simp [isOuterSpace, hc]), List.filter_cons_of_pos (by simp [hc]), ih hcs]
      rfl

/-! ## Texts of the same words -/

/-- A mode before a gap that has been read, or not. -/
def Stands (T : CharTable) (gap : Bool) (m x : Mode) : Prop := if gap then PastGap T m x else x = m

variable {p p' : Bool} {a b : List Char} {x y : Mode}

theorem Stands.ne_quoted (h : Stands T p m x) (hm : ∀ q, m ≠ .quoted q) : x ≠ .quoted q := by
  cases p with
  | false => exact h ▸ hm q
  | true => exact PastGap.notQuoted h q

theorem Stands.ne_lineComment (h : Stands T p m x) (hm : m ≠ .lineComment) : x ≠ .lineComment := by
  cases p with
  | false => exact h ▸ hm
  | true =>
    rintro rfl
    exact hm (settle_eq_lineComment.mp (PastGap.settle h).symm)

/-- White space read in a gap. -/
theorem Stands.space (h : Stands T p m x) (hm : ∀ q, m ≠ .quoted q)
    (hline : x = .lineComment → c ≠ '\n' ∧ c ≠ '\r') (hc : isPySpace c = true) : Stands T true m (x.next T c) := by
  have hnext := pastGap_next (T := T) (fun q => h.ne_quoted hm) hline hc
  cases p with
  | false => exact h ▸ hnext
  | true => exact PastGap.trans h hnext

/-- What follows a gap is read in one way. -/
theorem Stands.char (hx : Stands T p m x) (hy : Stands T p m y) :
    x.mark T c = y.mark T c ∧ x.next T c = y.next T c := by
  cases p with
  | false =>
    rw [show x = m from hx, show y = m from hy]
    exact ⟨rfl, rfl⟩
  | true => exact ⟨(PastGap.mark hx c).trans (PastGap.mark hy c).symm, (PastGap.next hx c).trans (PastGap.next hy c).symm⟩

/-- **No word quotes anything**, whichever lines are broken: the text does not as one line, nor does what
stands behind any of its white space. -/
theorem quiet_of_respaced (h : Respaced isPySpace p a p' b) (hx : Stands T p m x)
    (hy : Stands T p' m y ∨ (p' = true ∧ y = .start)) (hm : ∀ q, m ≠ .quoted q) (ha : Quiet T x (blanked a))
    (hgap : p = true → Quiet T .start (blanked a))
    (hrest : ∀ u c v, a = u ++ c :: v → isPySpace c = true → Quiet T .start (blanked v)) : Quiet T y b := by
  induction h generalizing m x y with
  | nil => exact fun _ h => absurd h List.not_mem_nil
  | left hc _ ih =>
    rw [blanked_cons_space hc, quiet_cons] at ha
    refine ih (hx.space hm (fun _ => by decide) rfl) hy hm ha.2 (fun _ => hrest [] _ _ rfl hc) fun u c v hv => ?_
    exact hrest (_ :: u) c v (by rw [hv]; rfl)
  | @right p p' c a b hc _ ih =>
    have hquoted : ∀ q, y ≠ .quoted q := by
      intro q
      rcases hy with hy | ⟨-, rfl⟩
      · exact hy.ne_quoted hm
      · simp [Mode.start]
    refine quiet_cons.mpr ⟨mark_space hquoted hc, ih hx ?_ hm ha hgap hrest⟩
    rcases hy with hy | ⟨-, rfl⟩
    · by_cases hline : y = .lineComment → c ≠ '\n' ∧ c ≠ '\r'
      · exact .inl (hy.space hm hline hc)
      · -- The line comment ends here, and the rest is read as code.
        rw [Classical.not_imp, not_and_or, not_not, not_not] at hline
        obtain ⟨rfl, hbreak⟩ := hline
        exact .inr ⟨rfl, if_pos hbreak⟩
    · exact .inr ⟨rfl, next_code_space hc⟩
  | @char p c a b hc _ ih =>
    have hrest' : ∀ u d v, a = u ++ d :: v → isPySpace d = true → Quiet T .start (blanked v) :=
      fun u d v hv => hrest (c :: u) d v (by rw [hv]; rfl)
    have hgo : ∀ z : Mode, (∀ q, z ≠ .quoted q) → Quiet T z (blanked (c :: a)) → Quiet T z (c :: b) := by
      intro z hz hquiet
      rw [blanked_cons_char hc, quiet_cons] at hquiet
      exact quiet_cons.mpr ⟨hquiet.1, ih rfl (.inl rfl) (fun q => next_ne_quoted hz hquiet.1) hquiet.2
        (fun h => by cases h) hrest'⟩
    rcases hy with hy | ⟨hgapped, rfl⟩
    · have hsame := hx.char (c := c) hy
      have hb := hgo x (fun q => hx.ne_quoted hm) ha
      rw [quiet_cons] at hb ⊢
      rwa [← hsame.1, ← hsame.2]
    · exact hgo .start (by simp [Mode.start]) (hgap hgapped)

/-- **What is quoted does not depend on the white space**: none is quoted, the end is not, and behind the start
of a line comment nothing is, wherever the comment's line ends. -/
structure SpacingFixed (T : CharTable) (m : Mode) (cs : List Char) : Prop where
  unquoted : ∀ u v, cs = u ++ v → (∀ c ∈ v.head?, isPySpace c = true) → ∀ q, m.after T u ≠ .quoted q
  uncommented : ∀ u₁ u₂ c v, cs = u₁ ++ u₂ ++ c :: v → m.after T u₁ = .lineComment → isPySpace c = true →
    Quiet T .start (blanked v)

theorem SpacingFixed.tail (h : SpacingFixed T m (c :: cs)) : SpacingFixed T (m.next T c) cs where
  unquoted u v hv := h.unquoted (c :: u) v (by rw [hv]; rfl)
  uncommented u₁ u₂ d v hv := h.uncommented (c :: u₁) u₂ d v (by rw [hv]; rfl)

theorem SpacingFixed.ne_quoted (h : SpacingFixed T m cs) (hhead : ∀ c ∈ cs.head?, isPySpace c = true) :
    m ≠ .quoted q := h.unquoted [] cs rfl hhead q

/-- Behind the start of a line comment, two texts of the same words keep the same characters. -/
theorem filter_eq_of_lineComment (h : Respaced isPySpace false a false b)
    (hfixed : ∀ u c v, a = u ++ c :: v → isPySpace c = true → Quiet T .start (blanked v)) :
    (marks T .lineComment a).filter (! isOuterSpace ·) = (marks T .lineComment b).filter (! isOuterSpace ·) := by
  have hquiet : ∀ {d : List Char}, Respaced isPySpace false a false d → Quiet T .lineComment d := fun hd =>
    quiet_of_respaced hd rfl (.inl rfl) (fun q h => by cases h) (after_lineComment blanked_no_break).2
      (fun h => by cases h) hfixed
  have hself : Respaced isPySpace false a false a := by
    have hnil : Respaced isPySpace false (a ++ []) false (a ++ []) := Respaced.append_left fun _ => .nil
    rwa [List.append_nil] at hnil
  rw [filter_of_quiet (hquiet hself), filter_of_quiet (hquiet h), h.filter_eq]

/-- **Two texts of the same words**, read side by side from before a gap. -/
theorem filter_eq_of_respaced (h : Respaced isPySpace p a p' b) (hx : Stands T p m x) (hy : Stands T p' m y)
    (hline : m ≠ .lineComment) (hm : (∃ q, m = .quoted q) → p = false ∧ p' = false) (hfixed : SpacingFixed T x a) :
    (marks T x a).filter (! isOuterSpace ·) = (marks T y b).filter (! isOuterSpace ·) := by
  have houter : ∀ {z : Mode} {d : Char} {ds : List Char}, (∀ q, z ≠ .quoted q) → isPySpace d = true →
      (marks T z (d :: ds)).filter (! isOuterSpace ·) = (marks T (z.next T d) ds).filter (! isOuterSpace ·) := by
    intro z d ds hz hd
    rw [marks, List.filter_cons_of_neg (by simp [isOuterSpace, mark_space hz hd, hd])]
  induction h generalizing m x y with
  | nil => rfl
  | @left p p' c a b hc _ ih =>
    have hquoted : ∀ q, m ≠ .quoted q := by
      rintro q rfl
      obtain ⟨rfl, -⟩ := hm ⟨q, rfl⟩
      exact hfixed.ne_quoted (fun d hd => by cases hd; exact hc) hx
    have hxline : x = .lineComment → c ≠ '\n' ∧ c ≠ '\r' := fun h => absurd h (hx.ne_lineComment hline)
    rw [houter (fun q => hx.ne_quoted hquoted) hc]
    exact ih (hx.space hquoted hxline hc) hy hline (fun ⟨q, hq⟩ => absurd hq (hquoted q)) hfixed.tail
  | @right p p' c a b hc hrest ih =>
    have hquoted : ∀ q, m ≠ .quoted q := by
      rintro q rfl
      obtain ⟨rfl, -⟩ := hm ⟨q, rfl⟩
      have hhead := (hrest.left_gap rfl).resolve_left Bool.false_ne_true
      exact hfixed.ne_quoted hhead hx
    have hyline : y = .lineComment → c ≠ '\n' ∧ c ≠ '\r' := fun h => absurd h (hy.ne_lineComment hline)
    rw [houter (fun q => hy.ne_quoted hquoted) hc]
    exact ih hx (hy.space hquoted hyline hc) hline (fun ⟨q, hq⟩ => absurd hq (hquoted q)) hfixed
  | @char p c a b hc hrest ih =>
    have hkept : ∀ k : Mark, (! isOuterSpace (c, k)) = true := fun k => by simp [isOuterSpace, hc]
    obtain ⟨hmark, hnext⟩ := hx.char (c := c) hy
    rw [marks, marks, List.filter_cons_of_pos (p := fun k => ! isOuterSpace k) (hkept _),
      List.filter_cons_of_pos (p := fun k => ! isOuterSpace k) (hkept _), hmark, hnext]
    refine congrArg _ ?_
    have htail : SpacingFixed T (y.next T c) a := hnext ▸ hfixed.tail
    by_cases hcomment : y.next T c = .lineComment
    · rw [hcomment] at htail ⊢
      exact filter_eq_of_lineComment hrest fun u d v hv hd => htail.uncommented [] u d v hv rfl hd
    · exact ih rfl rfl hcomment (fun _ => ⟨rfl, rfl⟩) htail

theorem stands_start : Stands T true .start .start := by
  have hgap := pastGap_next (T := T) (m := .start) (c := ' ') (fun q h => by cases h) (fun h => by cases h) rfl
  rwa [Mode.start, next_code_space rfl] at hgap

/-- A text whose quotes do not depend on its white space keeps what it quotes. -/
theorem SpacingFixed.skeleton_eq (hfixed : SpacingFixed T .start a) (h : Respaced isPySpace true a true b) :
    skeleton T a = skeleton T b :=
  filter_eq_of_respaced h stands_start stands_start (fun h => by cases h) (fun ⟨q, hq⟩ => by cases hq) hfixed

/-! ## Texts whose quotes depend on their white space -/

/-- A quoted blank is kept. -/
theorem unquoted_of_skeleton (h : ∀ b, Respaced isPySpace true a true b → skeleton T a = skeleton T b) (ha : a = u ++ v)
    (hv : ∀ c ∈ v.head?, isPySpace c = true) (q : Quote) : Mode.start.after T u ≠ .quoted q := by
  intro hq
  have hwider := h (u ++ ' ' :: v) (by rw [ha]; exact Respaced.append_left fun _ => Respaced.widen rfl hv)
  have hstay : (Mode.quoted q).next T ' ' = .quoted q := settle_quoted
  rw [skeleton, skeleton, ha, marks_append, marks_append, hq, marks, hstay, List.filter_append, List.filter_append,
    List.append_cancel_left_eq] at hwider
  have hlength := congrArg List.length hwider
  simp [isOuterSpace, Mode.mark] at hlength

/-- With and without a line break behind the start of a comment. -/
theorem uncommented_of_skeleton (h : ∀ b, Respaced isPySpace true a true b → skeleton T a = skeleton T b)
    {u₁ u₂ : List Char} (ha : a = u₁ ++ u₂ ++ c :: v) (hcomment : Mode.start.after T u₁ = .lineComment)
    (hc : isPySpace c = true) : Quiet T .start (blanked v) := by
  have hblanks : ∀ {w : List Char}, List.Forall₂ (fun c d => c = d ∧ isPySpace c = false ∨
      isPySpace c = true ∧ isPySpace d = true) w (blanked w) := by
    intro w
    refine List.forall₂_map_right_iff.mpr (List.forall₂_same.mpr fun d _ => ?_)
    cases hd : isPySpace d with
    | true => exact .inr ⟨rfl, by rw [if_pos rfl]; rfl⟩
    | false => exact .inl ⟨by simp, rfl⟩
  have hone : skeleton T a = skeleton T (u₁ ++ blanked (u₂ ++ c :: v)) := by
    refine h _ ?_
    rw [ha, List.append_assoc]
    exact Respaced.append_left fun _ => Respaced.of_forall₂ hblanks
  have htwo : skeleton T a = skeleton T (u₁ ++ (blanked u₂ ++ '\n' :: blanked v)) := by
    refine h _ ?_
    rw [ha, List.append_assoc]
    exact Respaced.append_left fun _ => Respaced.of_forall₂ (List.rel_append hblanks (.cons (.inr ⟨hc, rfl⟩) hblanks))
  have hsame := hone.symm.trans htwo
  have hafter : Mode.lineComment.after T (blanked u₂) = .lineComment := (after_lineComment blanked_no_break).1
  have hbroken : Mode.lineComment.next T '\n' = .start := rfl
  rw [skeleton, skeleton, marks_append, marks_append, hcomment, List.filter_append, List.filter_append,
    List.append_cancel_left_eq, filter_of_quiet (after_lineComment blanked_no_break).2] at hsame
  intro k hk
  by_contra hquoted
  have hmem : k ∈ (marks T .lineComment (blanked u₂ ++ '\n' :: blanked v)).filter (! isOuterSpace ·) := by
    refine List.mem_filter.mpr ⟨?_, by simp [isOuterSpace, hquoted]⟩
    rw [marks_append, hafter, marks, hbroken]
    exact List.mem_append_right _ (List.mem_cons_of_mem _ hk)
  rw [← hsame] at hmem
  obtain ⟨d, -, rfl⟩ := List.mem_map.mp hmem
  exact hquoted rfl

/-- **When every text of the same words quotes the same**: exactly when what is quoted does not depend on the
white space. -/
theorem skeleton_eq_iff_spacingFixed :
    (∀ b, Respaced isPySpace true a true b → skeleton T a = skeleton T b) ↔ SpacingFixed T .start a := by
  constructor
  · intro h
    exact ⟨fun u v ha hv => unquoted_of_skeleton h ha hv, fun u₁ u₂ c v => uncommented_of_skeleton h⟩
  · exact fun hfixed b => hfixed.skeleton_eq

end Tsql

end LocalSqlAgent
