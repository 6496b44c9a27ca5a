import Mathlib.Data.List.Forall2
import LocalSqlAgent.Lib.PyText
import LocalSqlAgent.Lib.RoseTree

/-! # Redaction of literals

`core.redaction.redact_sql_literals` over the trees `sqlglot` parses a text to, and what it makes of two texts
whose trees differ in the values of their literals only.

* **`redactTree`**: `tree.transform(_replace)`; **`redactSqlLiterals`**: the text that is written.
* **`SameButLiterals`**: two statements that differ in the values of literals only.
* **`redactTree_eq`**: where no value stays in the tree, such trees are redacted to one.
* **`redactSqlLiterals_alike_iff`**: the texts agree exactly when no literal is in a command, in a node of
  another kind, or a sort key that is no position. -/

namespace LocalSqlAgent

/-! ## Trees -/

/-- The classes of `string_like`. -/
inductive StringKind where
  | national
  | hexString
  | bitString
  | byteString
  | rawString
  deriving DecidableEq

/-- A node without its children: the classes `_replace` tells apart. -/
inductive SqlLabel where
  /-- `exp.Literal`. -/
  | literal (this : String) (isString : Bool)
  | stringLike (kind : StringKind) (this : String)
  /-- `exp.Placeholder`. -/
  | placeholder (this : String)
  /-- `exp.Ordered`. -/
  | ordered
  /-- `exp.Group`. -/
  | group
  /-- A node of another class that keeps the value of a literal, as a key of a JSON path. -/
  | holder (cls : String) (value : String)
  /-- Any other node, with its strings that are no literals. -/
  | node (cls : String) (texts : List String)
  deriving DecidableEq

/-- A tree of `sqlglot`. -/
abbrev SqlTree := RoseTree SqlLabel String

/-- `isinstance(parent, (exp.Ordered, exp.Group))`. -/
def SqlLabel.isKeyed : SqlLabel → Bool
  | .ordered => true
  | .group => true
  | _ => false

/-- **`_replace`**: the placeholder of a node, none for a node that is kept; `keyed` says whether its parent
is a sort or a group key. -/
def SqlLabel.replaced (keyed : Bool) : SqlLabel → Option String
  | .stringLike _ _ => some "str"
  | .literal _ true => some "str"
  | .literal _ false => if keyed then none else some "num"
  | _ => none

mutual

/-- **`tree.transform(_replace)`**: what is below a placeholder is not visited. -/
def redactTree (keyed : Bool) : SqlTree → SqlTree
  | .node a cs =>
    match a.replaced keyed with
    | some name => .node (.placeholder name) []
    | none => .node a (redactList a.isKeyed cs)

/-- The children. -/
def redactList (keyed : Bool) : List (String × SqlTree) → List (String × SqlTree)
  | [] => []
  | (k, c) :: rest => (k, redactTree keyed c) :: redactList keyed rest

end

/-! ## Statements -/

/-- A piece of a text. -/
inductive TextPiece where
  /-- What is no literal. -/
  | code (text : List Char)
  /-- A string between its quotes. -/
  | string (value : List Char)
  | number (value : List Char)

/-- How it is written. -/
def TextPiece.text : TextPiece → List Char
  | .code text => text
  | .string value => '\'' :: (value ++ ['\''])
  | .number value => value

/-- What `sqlglot.parse` returns for a statement: a tree, or a command with the rest of its text verbatim. -/
inductive GlotStatement where
  | tree (t : SqlTree)
  | command (this : List Char) (rest : List TextPiece)

/-- `sqlglot` for a dialect. -/
structure SqlGlot where
  /-- `sqlglot.parse`, none when it raises; a statement may be `None`. -/
  parse : List Char → Option (List (Option GlotStatement))
  /-- `tree.sql(comments=False)`. -/
  sql : SqlTree → List Char

/-- `SQL_WITHHELD`. -/
def sqlWithheld : List Char := "<SQL withheld: could not be parsed to redact its literals>".toList

/-- A statement that is redacted and written; a command keeps its text. -/
def GlotStatement.redacted (sql : SqlTree → List Char) : GlotStatement → List Char
  | .tree t => sql (redactTree false t)
  | .command this rest => this ++ ' ' :: strip (rest.flatMap TextPiece.text)

/-- `"; ".join(...)`. -/
def joinStatements : List (List Char) → List Char
  | [] => []
  | [text] => text
  | text :: next :: rest => text ++ ("; ".toList ++ joinStatements (next :: rest))

/-- The statements, redacted and written. -/
def redactedText (sql : SqlTree → List Char) (statements : List GlotStatement) : List Char :=
  joinStatements (statements.map (GlotStatement.redacted sql))

/-- **`redact_sql_literals`**. -/
def redactSqlLiterals (glot : SqlGlot) : Option (List Char) → List Char
  | none => []
  | some sql =>
    if strip sql = [] then []
    else
      match glot.parse sql with
      | none => sqlWithheld
      | some found =>
        let trees := found.filterMap id
        if trees.isEmpty then sqlWithheld else redactedText glot.sql trees

/-! ## Statements that differ in values -/

/-- A position: a number without a fraction. -/
def isOrdinal (text : String) : Bool := !text.toList.isEmpty && text.toList.all Char.isDigit

/-- The node without the value of its literal; a position is no value. -/
def SqlLabel.blank (keyed : Bool) : SqlLabel → SqlLabel
  | .literal this false => if keyed && isOrdinal this then .literal this false else .literal "" false
  | .literal _ true => .literal "" true
  | .stringLike kind _ => .stringLike kind ""
  | .holder cls _ => .holder cls ""
  | a => a

mutual

/-- The tree without the values of its literals. -/
def blankTree (keyed : Bool) : SqlTree → SqlTree
  | .node a cs => .node (a.blank keyed) (blankList a.isKeyed cs)

/-- The children. -/
def blankList (keyed : Bool) : List (String × SqlTree) → List (String × SqlTree)
  | [] => []
  | (k, c) :: rest => (k, blankTree keyed c) :: blankList keyed rest

end

/-- Pieces that are the same but for a literal's value. -/
inductive SamePiece : TextPiece → TextPiece → Prop
  | code (text : List Char) : SamePiece (.code text) (.code text)
  | string (v v' : List Char) : SamePiece (.string v) (.string v')
  | number (v v' : List Char) : SamePiece (.number v) (.number v')

/-- **Statements that differ only in the values of their literals**, positions aside. -/
inductive SameButLiterals : GlotStatement → GlotStatement → Prop
  | tree {t t' : SqlTree} : blankTree false t = blankTree false t' → SameButLiterals (.tree t) (.tree t')
  | command {this : List Char} {rest rest' : List TextPiece} : List.Forall₂ SamePiece rest rest' →
      SameButLiterals (.command this rest) (.command this rest')

/-! ## What stays -/

/-- A node that keeps a value: another class that holds one, or a number that is a key and no position. -/
def SqlLabel.keeps (keyed : Bool) : SqlLabel → Bool
  | .holder _ _ => true
  | .literal this false => keyed && !isOrdinal this
  | _ => false

mutual

/-- **No value stays** in the tree. -/
def clearTree (keyed : Bool) : SqlTree → Bool
  | .node a cs => (a.replaced keyed).isSome || (!a.keeps keyed && clearList a.isKeyed cs)

/-- Nor in the children. -/
def clearList (keyed : Bool) : List (String × SqlTree) → Bool
  | [] => true
  | (_, c) :: rest => clearTree keyed c && clearList keyed rest

end

/-- A piece that is no literal. -/
def TextPiece.isCode : TextPiece → Bool
  | .code _ => true
  | _ => false

/-- **No literal stays**: none in the text of a command, none in a tree. -/
def GlotStatement.clear : GlotStatement → Bool
  | .tree t => clearTree false t
  | .command _ rest => rest.all TextPiece.isCode

section Labels

variable {keyed : Bool} {a a' : SqlLabel}

theorem isKeyed_blank (keyed : Bool) (a : SqlLabel) : (a.blank keyed).isKeyed = a.isKeyed := by
  cases a with
  | literal this isString =>
    cases isString with
    | true => rfl
    | false =>
      rw [SqlLabel.blank]
      split <;> rfl
  | _ => rfl

theorem replaced_blank (keyed : Bool) (a : SqlLabel) : (a.blank keyed).replaced keyed = a.replaced keyed := by
  cases a with
  | literal this isString =>
    cases isString with
    | true => rfl
    | false =>
      rw [SqlLabel.blank]
      split <;> rfl
  | _ => rfl

theorem keeps_blank (keyed : Bool) (a : SqlLabel) : (a.blank keyed).keeps keyed = a.keeps keyed := by
  cases a with
  | literal this isString =>
    cases isString with
    | true => rfl
    | false =>
      rw [SqlLabel.blank]
      split
      · rfl
      · rename_i hvalue
        cases keyed with
        | false => rfl
        | true =>
          have hordinal : isOrdinal this = false := by simpa using hvalue
          show (true && !isOrdinal "") = (true && !isOrdinal this)
          rw [hordinal]
          rfl
  | _ => rfl

/-- A label that is neither replaced nor keeps a value holds none. -/
theorem blank_eq_self (hreplaced : a.replaced keyed = none) (hkeeps : a.keeps keyed = false) :
    a.blank keyed = a := by
  cases a with
  | literal this isString =>
    cases isString with
    | true => cases hreplaced
    | false =>
      cases keyed with
      | false => cases hreplaced
      | true =>
        have hordinal : isOrdinal this = true := by simpa [SqlLabel.keeps] using hkeeps
        rw [SqlLabel.blank, hordinal, Bool.and_self, if_pos rfl]
  | stringLike _ _ => cases hreplaced
  | holder _ _ => cases hkeeps
  | placeholder _ => rfl
  | ordered => rfl
  | group => rfl
  | node _ _ => rfl

/-- **Labels of one shape** are replaced by the same, or they are the same, when they keep no value. -/
theorem eq_of_blank_eq (h : a.blank keyed = a'.blank keyed) (hreplaced : a.replaced keyed = none)
    (hkeeps : a.keeps keyed = false) : a = a' := by
  have hreplaced' : a'.replaced keyed = none := by rw [← replaced_blank, ← h, replaced_blank, hreplaced]
  have hkeeps' : a'.keeps keyed = false := by rw [← keeps_blank, ← h, keeps_blank, hkeeps]
  rw [← blank_eq_self hreplaced hkeeps, h, blank_eq_self hreplaced' hkeeps']

end Labels

/-! ## One text for both -/

mutual

/-- **Trees of one shape** in which no value stays are redacted to one. -/
theorem redactTree_eq : ∀ {t t' : SqlTree} {keyed : Bool}, blankTree keyed t = blankTree keyed t' →
    clearTree keyed t = true → redactTree keyed t = redactTree keyed t'
  | .node a cs, .node a' cs', keyed, h, hclear => by
    rw [blankTree, blankTree] at h
    obtain ⟨hlabel, hchildren⟩ := RoseTree.node.inj h
    rw [clearTree, Bool.or_eq_true, Bool.and_eq_true, Bool.not_eq_true'] at hclear
    rw [redactTree, redactTree]
    have hreplaced : a.replaced keyed = a'.replaced keyed := by
      rw [← replaced_blank, hlabel, replaced_blank]
    cases hname : a.replaced keyed with
    | some name =>
      rw [← hreplaced, hname]
    | none =>
      rw [hname] at hclear
      obtain ⟨hkeeps, hrest⟩ := hclear.resolve_left Bool.false_ne_true
      obtain rfl := eq_of_blank_eq hlabel hname hkeeps
      rw [hname]
      dsimp only
      rw [redactList_eq hchildren hrest]

/-- So are lists of children. -/
theorem redactList_eq : ∀ {cs cs' : List (String × SqlTree)} {keyed : Bool},
    blankList keyed cs = blankList keyed cs' → clearList keyed cs = true → redactList keyed cs = redactList keyed cs'
  | [], [], _, _, _ => rfl
  | [], (k, c) :: rest, keyed, h, _ => by
    rw [blankList, blankList] at h
    cases h
  | (k, c) :: rest, [], keyed, h, _ => by
    rw [blankList, blankList] at h
    cases h
  | (k, c) :: rest, (k', c') :: rest', keyed, h, hclear => by
    rw [blankList, blankList] at h
    obtain ⟨hhead, hrest⟩ := List.cons.inj h
    obtain ⟨rfl, hchild⟩ := Prod.mk.inj hhead
    rw [clearList, Bool.and_eq_true] at hclear
    rw [redactList, redactList, redactTree_eq hchild hclear.1, redactList_eq hrest hclear.2]

end

/-- Pieces of code are the same. -/
theorem pieces_eq {rest rest' : List TextPiece} (h : List.Forall₂ SamePiece rest rest')
    (hcode : rest.all TextPiece.isCode = true) : rest = rest' := by
  induction h with
  | nil => rfl
  | cons hpiece _ ih =>
    rw [List.all_cons, Bool.and_eq_true] at hcode
    cases hpiece with
    | code text => rw [ih hcode.2]
    | string v v' => exact absurd hcode.1 Bool.false_ne_true
    | number v v' => exact absurd hcode.1 Bool.false_ne_true

/-- **Statements of one shape** in which no literal stays are written as one. -/
theorem redacted_eq (sql : SqlTree → List Char) {s s' : GlotStatement} (h : SameButLiterals s s') (hclear : s.clear = true) :
    s.redacted sql = s'.redacted sql := by
  cases h with
  | tree hblank => exact congrArg sql (redactTree_eq hblank hclear)
  | command hrest =>
    obtain rfl := pieces_eq hrest hclear
    rfl

theorem redactedText_eq (sql : SqlTree → List Char) {ss ss' : List GlotStatement} (h : List.Forall₂ SameButLiterals ss ss')
    (hclear : ∀ s ∈ ss, s.clear = true) : redactedText sql ss = redactedText sql ss' := by
  have hmap : ss.map (GlotStatement.redacted sql) = ss'.map (GlotStatement.redacted sql) := by
    induction h with
    | nil => rfl
    | cons hs _ ih =>
      obtain ⟨hhead, hrest⟩ := List.forall_mem_cons.mp hclear
      rw [List.map_cons, List.map_cons, redacted_eq sql hs hhead, ih hrest]
  rw [redactedText, redactedText, hmap]

/-! ## A value that stays is written -/

/-- **One value that stays is another.** -/
inductive ChangesOne (v v' : String) : SqlTree → SqlTree → Prop
  | holder {cls : String} {cs : List (String × SqlTree)} :
      ChangesOne v v' (.node (.holder cls v) cs) (.node (.holder cls v') cs)
  | number {cs : List (String × SqlTree)} :
      ChangesOne v v' (.node (.literal v false) cs) (.node (.literal v' false) cs)
  | child {a : SqlLabel} {k : String} {c c' : SqlTree} {pre post : List (String × SqlTree)} : ChangesOne v v' c c' →
      ChangesOne v v' (.node a (pre ++ (k, c) :: post)) (.node a (pre ++ (k, c') :: post))

/-- **The values of a tree are written**: trees that differ in one of them are not written alike. -/
def Writes (sql : SqlTree → List Char) : Prop :=
  ∀ v v' t t', ChangesOne v v' t t' → sql t = sql t' → v = v'

/-- A fraction that is another one. -/
def otherFraction (this : String) : String := if this = "0.5" then "1.5" else "0.5"

theorem otherFraction_ne (this : String) : this ≠ otherFraction this := by
  unfold otherFraction
  split
  · rename_i heq
    rw [heq]
    decide
  · assumption

theorem isOrdinal_otherFraction (this : String) : isOrdinal (otherFraction this) = false := by
  unfold otherFraction
  split <;> decide

theorem string_ne_append (v : String) : v ≠ v ++ "0" := by
  intro heq
  have hlength := congrArg String.length heq
  rw [String.length_append] at hlength
  have hzero : "0".length = 1 := rfl
  omega

mutual

/-- **A tree in which a value stays** has a variant in which another one stays. -/
theorem exists_changesOne : ∀ {t : SqlTree} {keyed : Bool}, clearTree keyed t = false →
    ∃ v v' t', v ≠ v' ∧ blankTree keyed t = blankTree keyed t' ∧
      ChangesOne v v' (redactTree keyed t) (redactTree keyed t')
  | .node a cs, keyed, hclear => by
    rw [clearTree, Bool.or_eq_false_iff, Bool.and_eq_false_iff, Bool.not_eq_false'] at hclear
    obtain ⟨hreplaced, hstays⟩ := hclear
    have hnone : a.replaced keyed = none := Option.isNone_iff_eq_none.mp (by simpa using hreplaced)
    obtain hkeeps | hlist := hstays
    · cases a with
      | holder cls v =>
        refine ⟨v, v ++ "0", .node (.holder cls (v ++ "0")) cs, string_ne_append v, rfl, ?_⟩
        exact .holder
      | literal this isString =>
        cases isString with
        | true => cases hnone
        | false =>
          cases keyed with
          | false => cases hnone
          | true =>
            have hordinal : isOrdinal this = false := by simpa [SqlLabel.keeps] using hkeeps
            refine ⟨this, otherFraction this, .node (.literal (otherFraction this) false) cs,
              otherFraction_ne this, ?_, .number⟩
            rw [blankTree, blankTree, SqlLabel.blank, SqlLabel.blank, hordinal, isOrdinal_otherFraction]
            rfl
      | _ => cases hkeeps
    · obtain ⟨v, v', k, c, c', pre, post, cs', hne, hblank, hredact, hredact', hchange⟩ := exists_changesOne_list hlist
      refine ⟨v, v', .node a cs', hne, ?_, ?_⟩
      · rw [blankTree, blankTree, hblank]
      · rw [redactTree, redactTree, hnone]
        dsimp only
        rw [hredact, hredact']
        exact .child hchange

/-- So has a list of children. -/
theorem exists_changesOne_list : ∀ {cs : List (String × SqlTree)} {keyed : Bool}, clearList keyed cs = false →
    ∃ v v' k c c' pre post cs', v ≠ v' ∧ blankList keyed cs = blankList keyed cs' ∧
      redactList keyed cs = pre ++ (k, c) :: post ∧ redactList keyed cs' = pre ++ (k, c') :: post ∧
        ChangesOne v v' c c'
  | [], _, hclear => by
    rw [clearList] at hclear
    cases hclear
  | (k, c) :: rest, keyed, hclear => by
    rw [clearList, Bool.and_eq_false_iff] at hclear
    obtain hchild | hrest := hclear
    · obtain ⟨v, v', c', hne, hblank, hchange⟩ := exists_changesOne hchild
      refine ⟨v, v', k, _, _, [], redactList keyed rest, (k, c') :: rest, hne, ?_, ?_, ?_, hchange⟩
      · rw [blankList, blankList, hblank]
      · rw [redactList, List.nil_append]
      · rw [redactList, List.nil_append]
    · obtain ⟨v, v', k', d, d', pre, post, rest', hne, hblank, hredact, hredact', hchange⟩ :=
        exists_changesOne_list hrest
      refine ⟨v, v', k', d, d', (k, redactTree keyed c) :: pre, post, (k, c) :: rest', hne, ?_, ?_, ?_, hchange⟩
      · rw [blankList, blankList, hblank]
      · rw [redactList, hredact, List.cons_append]
      · rw [redactList, hredact', List.cons_append]

end

/-! ### Commands -/

theorem countP_dropWhile (cs : List Char) :
    (cs.dropWhile isPySpace).countP (fun c => !isPySpace c) = cs.countP fun c => !isPySpace c := by
  induction cs with
  | nil => rfl
  | cons c cs ih =>
    rw [List.dropWhile_cons]
    split
    · rename_i hspace
      rw [ih, List.countP_cons_of_neg (by rw [hspace]; exact Bool.false_ne_true)]
    · rfl

/-- Stripping takes white space only. -/
theorem countP_strip (cs : List Char) :
    (strip cs).countP (fun c => !isPySpace c) = cs.countP fun c => !isPySpace c := by
  unfold strip rstrip lstrip
  rw [List.countP_reverse, countP_dropWhile, List.countP_reverse, countP_dropWhile]

/-- The piece with another value. -/
def TextPiece.withValue (value : List Char) : TextPiece → TextPiece
  | .code text => .code text
  | .string _ => .string value
  | .number _ => .number value

theorem samePiece_withValue (piece : TextPiece) (value : List Char) : SamePiece piece (piece.withValue value) := by
  cases piece with
  | code text => exact .code text
  | string v => exact .string v value
  | number v => exact .number v value

theorem forall₂_samePiece_refl (rest : List TextPiece) : List.Forall₂ SamePiece rest rest := by
  induction rest with
  | nil => exact .nil
  | cons piece rest ih =>
    refine .cons ?_ ih
    cases piece with
    | code text => exact .code text
    | string v => exact .string v v
    | number v => exact .number v v

/-- The value of a literal is in its text. -/
theorem countP_withValue {piece : TextPiece} (h : piece.isCode = false) (value : List Char) :
    value.countP (fun c => !isPySpace c) ≤ (piece.withValue value).text.countP fun c => !isPySpace c := by
  cases piece with
  | code text => cases h
  | string v =>
    have hinfix : value.Sublist ('\'' :: (value ++ ['\''])) :=
      (List.sublist_append_left value _).trans (List.sublist_cons_self _ _)
    exact hinfix.countP_le
  | number v => exact Nat.le_refl _

/-- **A literal in a command** has a variant that is written otherwise. -/
theorem exists_otherRest {rest : List TextPiece} (h : rest.all TextPiece.isCode = false) :
    ∃ rest', List.Forall₂ SamePiece rest rest' ∧
      strip (rest.flatMap TextPiece.text) ≠ strip (rest'.flatMap TextPiece.text) := by
  obtain ⟨piece, hmem, hliteral⟩ := List.all_eq_false.mp h
  have hnot : piece.isCode = false := by simpa using hliteral
  obtain ⟨pre, post, hrest⟩ := List.append_of_mem hmem
  -- a value that is longer than all that was written
  let value := List.replicate ((strip (rest.flatMap TextPiece.text)).length + 1) '1'
  have hvalue : value.countP (fun c => !isPySpace c) = (strip (rest.flatMap TextPiece.text)).length + 1 := by
    rw [List.countP_replicate, if_pos (by decide)]
  refine ⟨pre ++ piece.withValue value :: post, ?_, fun heq => ?_⟩
  · rw [hrest]
    exact List.rel_append (forall₂_samePiece_refl pre)
      (.cons (samePiece_withValue piece value) (forall₂_samePiece_refl post))
  · have hcount : value.countP (fun c => !isPySpace c) ≤
        (strip ((pre ++ piece.withValue value :: post).flatMap TextPiece.text)).countP fun c => !isPySpace c := by
      rw [countP_strip, List.flatMap_append, List.flatMap_cons, List.countP_append, List.countP_append]
      have := countP_withValue hnot value
      omega
    have hlength := Nat.le_trans hcount List.countP_le_length
    rw [← heq, hvalue] at hlength
    omega

/-! ### Statements -/

theorem joinStatements_inj {pre post : List (List Char)} {x y : List Char}
    (h : joinStatements (pre ++ x :: post) = joinStatements (pre ++ y :: post)) : x = y := by
  induction pre with
  | nil =>
    cases post with
    | nil => exact h
    | cons z post => exact List.append_cancel_right h
  | cons w pre ih =>
    have htail : ∀ z, joinStatements (w :: pre ++ z :: post) =
        w ++ ("; ".toList ++ joinStatements (pre ++ z :: post)) := by
      intro z
      cases pre <;> rfl
    rw [htail, htail] at h
    exact ih (List.append_cancel_left (List.append_cancel_left h))

theorem sameButLiterals_refl (s : GlotStatement) : SameButLiterals s s := by
  cases s with
  | tree t => exact .tree rfl
  | command this rest => exact .command (forall₂_samePiece_refl rest)

theorem forall₂_sameButLiterals_refl (ss : List GlotStatement) : List.Forall₂ SameButLiterals ss ss := by
  induction ss with
  | nil => exact .nil
  | cons s ss ih => exact .cons (sameButLiterals_refl s) ih

/-- **A statement in which a literal stays** has a variant that is written otherwise. -/
theorem exists_otherStatement {sql : SqlTree → List Char} (hsql : Writes sql) {s : GlotStatement}
    (h : s.clear = false) : ∃ s', SameButLiterals s s' ∧ s.redacted sql ≠ s'.redacted sql := by
  cases s with
  | tree t =>
    obtain ⟨v, v', t', hne, hblank, hchange⟩ := exists_changesOne h
    exact ⟨.tree t', .tree hblank, fun heq => hne (hsql v v' _ _ hchange heq)⟩
  | command this rest =>
    obtain ⟨rest', hsame, hne⟩ := exists_otherRest h
    refine ⟨.command this rest', .command hsame, fun heq => hne ?_⟩
    exact List.tail_eq_of_cons_eq (List.append_cancel_left heq)

theorem isEmpty_of_forall₂ {ss ss' : List GlotStatement} (h : List.Forall₂ SameButLiterals ss ss') :
    ss.isEmpty = ss'.isEmpty := by
  cases h <;> rfl

/-- **The same text for all texts of one shape**: whatever two texts the statements and a variant of them were
read off, `redact_sql_literals` gives one result. -/
def RedactsAlike (sql : SqlTree → List Char) (ss : List GlotStatement) : Prop :=
  ∀ (parse : List Char → Option (List (Option GlotStatement))) (text text' : List Char)
    (found found' : List (Option GlotStatement)), strip text ≠ [] → strip text' ≠ [] →
    parse text = some found → parse text' = some found' → found.filterMap id = ss →
    List.Forall₂ SameButLiterals ss (found'.filterMap id) →
    redactSqlLiterals ⟨parse, sql⟩ (some text) = redactSqlLiterals ⟨parse, sql⟩ (some text')

theorem redactSqlLiterals_eq {glot : SqlGlot} {text : List Char} {found : List (Option GlotStatement)}
    (htext : strip text ≠ []) (hparse : glot.parse text = some found) :
    redactSqlLiterals glot (some text) =
      if (found.filterMap id).isEmpty then sqlWithheld else redactedText glot.sql (found.filterMap id) := by
  rw [redactSqlLiterals, if_neg htext, hparse]

/-- **`redact_sql_literals` leaves no literal** exactly where none is in the text of a command, none is held by
a node of another class, and every number that is a sort or group key is a position. -/
theorem redactSqlLiterals_alike_iff {sql : SqlTree → List Char} (hsql : Writes sql) (ss : List GlotStatement) :
    RedactsAlike sql ss ↔ ∀ s ∈ ss, s.clear = true := by
  constructor
  · intro halike s hs
    cases hclear : s.clear with
    | true => rfl
    | false =>
      obtain ⟨s', hshape, hne⟩ := exists_otherStatement hsql hclear
      obtain ⟨pre, post, rfl⟩ := List.append_of_mem hs
      have hvariant : List.Forall₂ SameButLiterals (pre ++ s :: post) (pre ++ s' :: post) :=
        List.rel_append (forall₂_sameButLiterals_refl pre) (.cons hshape (forall₂_sameButLiterals_refl post))
      have hid : ∀ ss : List GlotStatement, (ss.map some).filterMap id = ss := fun ss => by
        rw [List.filterMap_map]
        exact List.filterMap_some
      have hnonempty : ∀ s, ((pre ++ s :: post).isEmpty) = false := fun s => by
        cases pre <;> rfl
      -- the parser reads the one off `a` and the other off `b`
      let parse := fun text : List Char => if text = ['a'] then some ((pre ++ s :: post).map some)
        else some ((pre ++ s' :: post).map some)
      have hparse : parse ['a'] = some ((pre ++ s :: post).map some) := if_pos rfl
      have hparse' : parse ['b'] = some ((pre ++ s' :: post).map some) := if_neg (by decide)
      have htexts := halike parse ['a'] ['b'] _ _ (by decide) (by decide) hparse hparse' (hid _)
        (by rw [hid]; exact hvariant)
      rw [@redactSqlLiterals_eq ⟨parse, sql⟩ _ _ (by decide) hparse,
        @redactSqlLiterals_eq ⟨parse, sql⟩ _ _ (by decide) hparse', hid, hid, hnonempty, hnonempty,
        if_neg Bool.false_ne_true, if_neg Bool.false_ne_true, redactedText, redactedText, List.map_append,
        List.map_append, List.map_cons, List.map_cons] at htexts
      exact absurd (joinStatements_inj htexts) hne
  · intro hclear parse text text' found found' htext htext' hparse hparse' hfound hvariant
    rw [redactSqlLiterals_eq htext hparse, redactSqlLiterals_eq htext' hparse', hfound]
    have hempty : ss.isEmpty = (found'.filterMap id).isEmpty := isEmpty_of_forall₂ hvariant
    rw [hempty, redactedText_eq sql hvariant hclear]

/-! ## Two statements -/

/-- How a plain writer writes a node, before its children. -/
def SqlLabel.text : SqlLabel → List Char
  | .literal this true => '\'' :: (this.toList ++ ['\''])
  | .literal this false => this.toList
  | .stringLike _ this => this.toList
  | .placeholder this => ':' :: this.toList
  | .ordered => []
  | .group => []
  | .holder _ value => value.toList
  | .node _ texts => texts.flatMap String.toList

mutual

/-- A plain writer: every node and then its children. -/
def plainSql : SqlTree → List Char
  | .node a cs => a.text ++ plainList cs

/-- The children. -/
def plainList : List (String × SqlTree) → List Char
  | [] => []
  | (_, c) :: rest => plainSql c ++ plainList rest

end

theorem plainList_append (cs ds : List (String × SqlTree)) : plainList (cs ++ ds) = plainList cs ++ plainList ds := by
  induction cs with
  | nil => rfl
  | cons head cs ih =>
    obtain ⟨k, c⟩ := head
    rw [List.cons_append, plainList, plainList, ih, List.append_assoc]

theorem plainSql_writes : Writes plainSql := by
  intro v v' t t' hchange heq
  induction hchange with
  | holder =>
    rw [plainSql, plainSql] at heq
    exact String.toList_injective (List.append_cancel_right heq)
  | number =>
    rw [plainSql, plainSql] at heq
    exact String.toList_injective (List.append_cancel_right heq)
  | child _ ih =>
    rw [plainSql, plainSql, plainList_append, plainList_append, plainList, plainList] at heq
    exact ih (List.append_cancel_right (List.append_cancel_left (List.append_cancel_left heq)))

/-- `SELECT 'v'`. -/
def selectLiteral (v : String) : GlotStatement :=
  .tree (.node (.node "Select" ["SELECT "]) [("expressions", .node (.literal v true) [])])

/-- `ALTER LOGIN nlq WITH PASSWORD = 'v'`, a statement the parser returns as a command. -/
def alterLogin (v : String) : GlotStatement :=
  .command "ALTER".toList [.code " LOGIN nlq WITH PASSWORD = ".toList, .string v.toList]

/-- A statement with a string in its tree. -/
theorem selectLiteral_redactsAlike : RedactsAlike plainSql [selectLiteral "Oslo"] :=
  (redactSqlLiterals_alike_iff plainSql_writes [selectLiteral "Oslo"]).mpr (by decide)

/-- Its text. -/
def alterText (v : String) : List Char := ("ALTER LOGIN nlq WITH PASSWORD = '" ++ v ++ "'").toList

/-- A parser that returns the statement off its text. -/
def alterParse (text : List Char) : Option (List (Option GlotStatement)) :=
  if text = alterText "s3cret" then some [some (alterLogin "s3cret")] else some [some (alterLogin "other")]

theorem redactSqlLiterals_alterLogin (sql : SqlTree → List Char) :
    redactSqlLiterals ⟨alterParse, sql⟩ (some (alterText "s3cret")) = alterText "s3cret" ∧
      redactSqlLiterals ⟨alterParse, sql⟩ (some (alterText "other")) = alterText "other" := ⟨rfl, rfl⟩

/-- **A command** keeps its literals: the password of the statement is in the text. -/
theorem alterLogin_not_redactsAlike : ¬ RedactsAlike plainSql [alterLogin "s3cret"] := by
  intro halike
  have htexts := halike alterParse (alterText "s3cret") (alterText "other") [some (alterLogin "s3cret")]
    [some (alterLogin "other")] (by decide) (by decide) rfl rfl rfl
    (.cons (.command (.cons (.code _) (.cons (.string _ _) .nil))) .nil)
  rw [(redactSqlLiterals_alterLogin plainSql).1, (redactSqlLiterals_alterLogin plainSql).2] at htexts
  exact absurd htexts (by decide)

end LocalSqlAgent
