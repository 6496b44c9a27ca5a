import LocalSqlAgent.Core.LetterForms
import LocalSqlAgent.Lib.LikePattern
import LocalSqlAgent.Lib.OrderedDict
import LocalSqlAgent.Lib.RangeEdits
import LocalSqlAgent.Retrieval.FilterValues
import LocalSqlAgent.Security.CleanSql

/-! # The filter value spelling fix

`retrieval.filter_spelling`: a literal that a column stores with other letter forms is rewritten in the text of
a statement the guard accepted. The literal's own token is replaced and nothing else; the new text has to read
as the old tree with other literals, and the guard sees it once more.

* **`respellLiteral`**, **`respellLikePattern`**: the stored spelling of a literal and of a pattern.
* **`FilterSpelling.respellFilters`**: the statement to run.
* **`FilterSpelling.respellFilters_splices`**: the two texts are the same but for the tokens of the rewritten literals, each a
  quoted literal under the same prefix before and after.
* **`FilterSpelling.respelled_finds`**: a rewritten literal finds every stored value the old one found.
* **`FilterSpelling.respellFilters_insensitive`**: columns the guard refuses to the caller have no influence. -/

namespace LocalSqlAgent

/-! ## Spellings -/

/-- `LETTER_FORM_GROUPS`. -/
def letterFormGroups : List (List Char) := [[persianYeh, arabicYeh, alefMaksura], [persianKaf, arabicKaf]]

section Spelling

variable (U : UnicodeForms) (normalize : String → String)

/-- `letter_form_key` of a string. -/
def letterKey (text : String) : List Char := letterFormKey U text.toList

/-- **`respell_literal`**: the one stored value with the literal's key. -/
def respellLiteral (value : String) (stored : List String) : Option String :=
  let stored := stored.eraseDups
  if value ∈ stored then none
  else if letterKey U value = [] then none
  else
    match stored.filter fun candidate => letterKey U candidate = letterKey U value with
    | [candidate] =>
      if stored.any fun other => other ≠ candidate ∧ normalize other = normalize value then none else some candidate
    | _ => none

/-- The forms of a group that some values use. -/
def usedForms (stored : List String) (group : List Char) : List Char :=
  group.filter fun form => stored.any fun value => form ∈ value.toList

/-- The letters of a group in the one form the values use. -/
def respellGroup (stored : List String) (pattern : List Char) (group : List Char) : List Char :=
  match usedForms stored group with
  | [target] => pattern.map fun c => if c ∈ group then target else c
  | _ => pattern

/-- **`respell_like_pattern`.** -/
def respellLikePattern (pattern : String) (stored : List String) : Option String :=
  let stored := stored.eraseDups
  if stored.any fun value => value.toList.any isPresentationForm then none
  else
    let rewritten := String.ofList (letterFormGroups.foldl (respellGroup stored) pattern.toList)
    if rewritten ≠ pattern then some rewritten else none

end Spelling

/-! ## Quoted literals -/

/-- `body.replace("'", "''")`. -/
def doubleQuotes (text : List Char) : List Char := replaceWord ['\''] ['\'', '\''] text

/-- The text between the quotes; `none` where a quote is not doubled. -/
def readBody (body : List Char) : Option (List Char) :=
  if '\'' ∈ replaceWord ['\'', '\''] [] body then none else some (replaceWord ['\'', '\''] ['\''] body)

/-- The `N` of a national literal. -/
def nationalMark (written : List Char) : List Char := (written.take 1).filter fun c => c = 'N' ∨ c = 'n'

/-- `_QUOTED`: the mark and the text of one quoted literal. -/
def readQuoted (written : List Char) : Option (List Char × List Char) :=
  let mark := nationalMark written
  let inner := written.drop mark.length
  if inner.head? = some '\'' ∧ inner.tail.getLast? = some '\'' then
    (readBody inner.tail.dropLast).map fun text => (mark, text)
  else none

/-- A literal as it is written. -/
def writeQuoted (mark text : List Char) : List Char := mark ++ '\'' :: (doubleQuotes text ++ ['\''])

section Quoted

theorem replaceWord_cons_of_ne {old : List Char} {c : Char} (hc : ∀ rest, ¬ old <+: c :: rest) (new rest : List Char) :
    replaceWord old new (c :: rest) = c :: replaceWord old new rest := by
  rw [replaceWord, pieces_cons, if_neg fun h => hc _ (List.isPrefixOf_iff_prefix.mp h),
    joinPieces_modifyHead (pieces_ne_nil _ _ _)]
  rfl

theorem doubleQuotes_cons (c : Char) (rest : List Char) :
    doubleQuotes (c :: rest) = (if c = '\'' then ['\'', '\''] else [c]) ++ doubleQuotes rest := by
  by_cases hc : c = '\''
  · subst hc
    have hfound : ['\''].isPrefixOf ('\'' :: rest) = true := rfl
    rw [if_pos rfl, doubleQuotes, replaceWord, pieces_cons, if_pos hfound, joinPieces_cons (pieces_ne_nil _ _ _)]
    rfl
  · rw [if_neg hc]
    refine replaceWord_cons_of_ne (fun rest h => hc ?_) _ _
    obtain ⟨t, ht⟩ := h
    exact (List.cons.inj ht).1.symm

/-- Doubled quotes are found again, one for each. -/
theorem replaceWord_doubleQuotes (new text : List Char) :
    replaceWord ['\'', '\''] new (doubleQuotes text) = text.flatMap fun c => if c = '\'' then new else [c] := by
  induction text with
  | nil => rfl
  | cons c rest ih =>
    rw [doubleQuotes_cons, List.flatMap_cons, ← ih]
    by_cases hc : c = '\''
    · subst hc
      have hfound : ['\'', '\''].isPrefixOf ('\'' :: ('\'' :: doubleQuotes rest)) = true := rfl
      rw [if_pos rfl, if_pos rfl]
      show replaceWord ['\'', '\''] new ('\'' :: ('\'' :: doubleQuotes rest)) = _
      rw [replaceWord, pieces_cons, if_pos hfound, joinPieces_cons (pieces_ne_nil _ _ _)]
      rfl
    · rw [if_neg hc, if_neg hc, List.singleton_append]
      refine replaceWord_cons_of_ne (fun rest h => hc ?_) _ _
      obtain ⟨t, ht⟩ := h
      exact (List.cons.inj ht).1.symm

theorem readBody_doubleQuotes (text : List Char) : readBody (doubleQuotes text) = some text := by
  unfold readBody
  rw [replaceWord_doubleQuotes, replaceWord_doubleQuotes, if_neg]
  · have hsame : (fun c : Char => if c = '\'' then ['\''] else [c]) = fun c => [c] := by
      funext c
      split
      · rename_i hc
        rw [hc]
      · rfl
    rw [hsame, List.flatMap_singleton']
  · intro hmem
    obtain ⟨c, -, hc⟩ := List.mem_flatMap.mp hmem
    split at hc
    · cases hc
    · rename_i hne
      exact hne (List.mem_singleton.mp hc).symm

/-- **A literal is read as it was written.** -/
theorem readQuoted_writeQuoted {mark : List Char} (hmark : mark ∈ [[], ['N'], ['n']]) (text : List Char) :
    readQuoted (writeQuoted mark text) = some (mark, text) := by
  have hnational : nationalMark (writeQuoted mark text) = mark := by
    obtain rfl | rfl | rfl : mark = [] ∨ mark = ['N'] ∨ mark = ['n'] := by simpa using hmark
    all_goals rfl
  have hinner : (writeQuoted mark text).drop mark.length = '\'' :: (doubleQuotes text ++ ['\'']) := List.drop_left
  unfold readQuoted
  dsimp only
  rw [hnational, hinner, List.tail_cons, List.getLast?_concat, List.dropLast_concat, readBody_doubleQuotes]
  rfl

/-- The mark of a literal that was read. -/
theorem nationalMark_mem (written : List Char) : nationalMark written ∈ [[], ['N'], ['n']] := by
  cases written with
  | nil => decide
  | cons c rest =>
    unfold nationalMark
    rw [List.take_succ_cons, List.take_zero]
    by_cases hupper : c = 'N'
    · subst hupper
      decide
    · by_cases hlower : c = 'n'
      · subst hlower
        decide
      · rw [List.filter_cons_of_neg (by simp [hupper, hlower])]
        decide

end Quoted

/-! ## What a spelling finds -/

section Finds

variable {U : UnicodeForms} {normalize : String → String} {value new v : String} {stored : List String}

/-- **The stored spelling of a literal**: the one stored value with its key, no other reads alike. -/
theorem respellLiteral_eq_some_iff : respellLiteral U normalize value stored = some new ↔
    value ∉ stored ∧ new ∈ stored ∧ letterKey U value ≠ [] ∧ letterKey U new = letterKey U value ∧
      ∀ other ∈ stored, other ≠ new →
        letterKey U other ≠ letterKey U value ∧ normalize other ≠ normalize value := by
  have hmem : ∀ c, c ∈ stored.eraseDups.filter (fun c => letterKey U c = letterKey U value) ↔
      c ∈ stored ∧ letterKey U c = letterKey U value := by
    intro c
    rw [List.mem_filter, List.mem_eraseDups, decide_eq_true_iff]
  have hnodup := (eraseDups_nodup stored).filter fun c => decide (letterKey U c = letterKey U value)
  unfold respellLiteral
  dsimp only
  by_cases hvalue : value ∈ stored
  · rw [if_pos (List.mem_eraseDups.mpr hvalue)]
    exact iff_of_false (Option.some_ne_none new).symm fun h => h.1 hvalue
  rw [if_neg fun h => hvalue (List.mem_eraseDups.mp h)]
  by_cases hkey : letterKey U value = []
  · rw [if_pos hkey]
    exact iff_of_false (Option.some_ne_none new).symm fun h => h.2.2.1 hkey
  rw [if_neg hkey]
  split
  · rename_i candidate hone
    rw [hone] at hmem
    have honly : ∀ c, c = candidate ↔ c ∈ stored ∧ letterKey U c = letterKey U value :=
      fun c => List.mem_singleton.symm.trans (hmem c)
    obtain ⟨hstored, hsame⟩ := (honly candidate).mp rfl
    split
    · rename_i hany
      obtain ⟨other, hother, htwo⟩ := List.any_eq_true.mp hany
      obtain ⟨hne, halike⟩ := of_decide_eq_true htwo
      refine iff_of_false (Option.some_ne_none new).symm fun ⟨_, hnew, _, hnewKey, hothers⟩ => ?_
      cases (honly new).mpr ⟨hnew, hnewKey⟩
      exact (hothers other (List.mem_eraseDups.mp hother) hne).2 halike
    · rename_i hnone
      constructor
      · intro h
        cases h
        refine ⟨hvalue, hstored, hkey, hsame, fun other hother hne => ⟨fun hk => hne ((honly other).mpr ⟨hother, hk⟩),
          fun halike => hnone (List.any_eq_true.mpr ⟨other, List.mem_eraseDups.mpr hother, ?_⟩)⟩⟩
        exact decide_eq_true ⟨hne, halike⟩
      · rintro ⟨-, hnew, -, hnewKey, -⟩
        rw [(honly new).mpr ⟨hnew, hnewKey⟩]
  · rename_i hnot
    refine iff_of_false (Option.some_ne_none new).symm fun ⟨_, hnew, _, hnewKey, hothers⟩ => hnot new ?_
    -- different values of which one alone has the key
    refine List.perm_singleton.mp ((List.perm_ext_iff_of_nodup hnodup (List.nodup_singleton new)).mpr fun c => ?_)
    rw [hmem, List.mem_singleton]
    constructor
    · rintro ⟨hc, hcKey⟩
      by_contra hne
      exact (hothers c hc hne).1 hcKey
    · rintro rfl
      exact ⟨hnew, hnewKey⟩

/-- **A collation's equality**: equal texts read alike. -/
structure EqualReadsAlike (normalize : String → String) (equal : String → String → Prop) : Prop where
  refl : ∀ s, equal s s
  folds : ∀ s t, equal s t → normalize s = normalize t

/-- **A respelled literal finds what the old one found**, of the stored values: it is found itself. -/
theorem respellLiteral_finds {equal : String → String → Prop} (hequal : EqualReadsAlike normalize equal)
    (h : respellLiteral U normalize value stored = some new) (hv : v ∈ stored) (hfound : equal v value) :
    equal v new := by
  obtain ⟨-, -, -, -, hothers⟩ := respellLiteral_eq_some_iff.mp h
  by_cases hnew : v = new
  · exact hnew ▸ hequal.refl v
  · exact absurd (hequal.folds v value hfound) (hothers v hv hnew).2

/-- **A collation that takes a letter of a group for letters of its group only.** -/
structure KeepsGroups (rules : LikeRules) : Prop where
  group : ∀ g ∈ letterFormGroups, ∀ c ∈ g, ∀ x, rules.same c x = true → x ∈ g ∨ isPresentationForm x = true
  escape : ∀ g ∈ letterFormGroups, rules.escape ∉ g

variable {rules : LikeRules}

/-- The letter of a group in the one form the values use. -/
def groupForm (stored : List String) (group : List Char) (c : Char) : Char :=
  match usedForms stored group with
  | [target] => if c ∈ group then target else c
  | _ => c

theorem respellGroup_eq (pattern group : List Char) :
    respellGroup stored pattern group = pattern.map (groupForm stored group) := by
  unfold respellGroup groupForm
  split
  · rfl
  · exact (List.map_id' pattern).symm

/-- A letter becomes one that the values use, the only one of its group, or stays. -/
theorem groupForm_cases (group : List Char) (c : Char) : groupForm stored group c = c ∨
    c ∈ group ∧ usedForms stored group = [groupForm stored group c] := by
  unfold groupForm
  split
  · rename_i target hone
    by_cases hc : c ∈ group
    · rw [if_pos hc]
      exact .inr ⟨hc, hone⟩
    · exact .inl (if_neg hc)
  · exact .inl rfl

theorem groupForm_mem {group : List Char} {c : Char} (hc : c ∈ group) : groupForm stored group c ∈ group := by
  obtain hsame | ⟨-, hone⟩ := @groupForm_cases stored group c
  · rw [hsame]
    exact hc
  · have hused : groupForm stored group c ∈ usedForms stored group := by
      rw [hone]
      exact List.mem_singleton_self _
    exact List.mem_of_mem_filter hused

/-- The marks of patterns are in no group. -/
theorem KeepsGroups.marks (hrules : KeepsGroups rules) {group : List Char} (hgroup : group ∈ letterFormGroups) :
    KeepsMarks rules (groupForm stored group) := by
  have hout : ∀ c ∈ ['%', '_', '[', rules.escape], c ∉ group := by
    have hescape := hrules.escape group hgroup
    simp only [List.mem_cons, List.not_mem_nil, or_false, letterFormGroups] at hgroup ⊢
    rintro c (rfl | rfl | rfl | rfl) <;> first | exact hescape | (obtain rfl | rfl := hgroup <;> decide)
  refine ⟨fun c hc => ?_, fun c hc => ?_⟩
  · exact (groupForm_cases group c).resolve_right fun h => hout c hc h.1
  · obtain hsame | ⟨hin, -⟩ := @groupForm_cases stored group c
    · exact hsame ▸ hc
    · exact absurd (groupForm_mem hin) (hout _ hc)

/-- One group respelled: a stored value is found as before. -/
theorem likeMatches_respellGroup (hrules : KeepsGroups rules) {group : List Char} (hgroup : group ∈ letterFormGroups)
    (hv : v ∈ stored) (hforms : v.toList.any isPresentationForm = false) {pattern : List Char} (hset : '[' ∉ pattern)
    (h : likeMatches rules pattern v.toList = true) :
    '[' ∉ respellGroup stored pattern group ∧
      likeMatches rules (respellGroup stored pattern group) v.toList = true := by
  have hmarks : KeepsMarks rules (groupForm stored group) := hrules.marks hgroup
  rw [respellGroup_eq]
  refine ⟨fun hmem => ?_, likeMatches_map hmarks hset (fun x hx c hsame => ?_) h⟩
  · obtain ⟨c, hc, himage⟩ := List.mem_map.mp hmem
    have hmark := hmarks.plain c (himage ▸ by simp)
    exact hset (((hmarks.fixed c hmark).symm.trans himage) ▸ hc)
  · obtain hstay | ⟨hin, hone⟩ := @groupForm_cases stored group c
    · rw [hstay]
      exact hsame
    · -- the value's letter is of the group, so it is the form the values use
      have hx' : x ∈ group := by
        refine (hrules.group group hgroup c hin x hsame).resolve_right fun hform => ?_
        rw [List.any_eq_false] at hforms
        exact hforms x hx hform
      have hused : x ∈ usedForms stored group :=
        List.mem_filter.mpr ⟨hx', List.any_eq_true.mpr ⟨v, hv, decide_eq_true hx⟩⟩
      rw [hone, List.mem_singleton] at hused
      rw [← hused]
      exact rules.same_refl x

/-- **A respelled pattern finds what the old one found**, of the stored values, when it has no set. -/
theorem respellLikePattern_finds (hrules : KeepsGroups rules) (h : respellLikePattern value stored = some new)
    (hset : '[' ∉ value.toList) (hv : v ∈ stored) (hfound : likeMatches rules value.toList v.toList = true) :
    likeMatches rules new.toList v.toList = true := by
  unfold respellLikePattern at h
  dsimp only at h
  split at h
  · cases h
  · rename_i hforms
    have hv' : v ∈ stored.eraseDups := List.mem_eraseDups.mpr hv
    have hplain : v.toList.any isPresentationForm = false := by
      by_contra hany
      exact hforms (List.any_eq_true.mpr ⟨v, hv', Bool.of_not_eq_false hany⟩)
    split at h
    · cases h
      have hall : ∀ (groups : List (List Char)) (pattern : List Char), (∀ g ∈ groups, g ∈ letterFormGroups) →
          '[' ∉ pattern → likeMatches rules pattern v.toList = true →
          likeMatches rules (groups.foldl (respellGroup stored.eraseDups) pattern) v.toList = true := by
        intro groups
        induction groups with
        | nil => exact fun pattern _ _ hmatch => hmatch
        | cons g groups ih =>
          intro pattern hgroups hnoset hmatch
          obtain ⟨hnoset', hmatch'⟩ :=
            likeMatches_respellGroup hrules (hgroups g List.mem_cons_self) hv' hplain hnoset hmatch
          exact ih _ (fun g' hg' => hgroups g' (List.mem_cons_of_mem _ hg')) hnoset' hmatch'
      rw [String.toList_ofList]
      exact hall letterFormGroups value.toList (fun _ hg => hg) hset hfound
    · cases h

end Finds

/-! ## Literals to respell -/

/-- Where an occurrence stands below the root, from the root down. It is what tells the nodes of a tree apart. -/
def place (o : ExprOcc) : List ℕ := (o.frames.map (·.before.length)).reverse

/-- `like_patterns`: the column, the pattern and its text. Whether it is negated is not used here. -/
def likePatterns (tree : Expr) : List (ExprOcc × ExprOcc × String) :=
  ((preorder tree).filter (·.node.cls = .other "Like")).filterMap fun o =>
    ((unparen (childrenAt .this o).head?).filter (·.node.cls.isColumn)).bind fun column =>
      (unparen (childrenAt .expression o).head?).bind fun node =>
        (literalText node.node).map fun text => (column, node, text)

/-- A literal to be rewritten. -/
structure SpellingEdit where
  /-- Its place in the tree. -/
  place : List ℕ
  /-- The text it has. -/
  old : String
  /-- The text it gets. -/
  new : String
  /-- The columns it is compared with. -/
  columns : List String

section Edits

variable (U : UnicodeForms) (E : GuardEnv) (V : VocabularyConfig) (topN : ℕ) (cache : VocabularyCache)
  (policy : ColumnPolicy) (restrictions : JoinOnlyRestrictions)

/-- `pool_of`: the stored values of a column of the statement, and its names. -/
def spellingPool (tree : Expr) (column : ExprOcc) : Option (List String × List String) :=
  match usableVocabularies E V topN cache policy restrictions (originsAt E.schema tree column) with
  | [] => none
  | vocabularies => some (poolOf vocabularies, vocabularies.map fun v => v.1 ++ "." ++ v.2.1)

/-- The literals of comparisons to be rewritten. -/
def literalEdits (tree : Expr) : List SpellingEdit :=
  (comparisonLiterals tree).flatMap fun c =>
    match spellingPool E V topN cache policy restrictions tree c.column with
    | none => []
    | some pool => c.literals.filterMap fun l =>
        (respellLiteral U V.normalize l.2 pool.1).map fun new => ⟨place l.1, l.2, new, pool.2⟩

/-- The patterns to be rewritten. -/
def patternEdits (tree : Expr) : List SpellingEdit :=
  (likePatterns tree).filterMap fun p =>
    (spellingPool E V topN cache policy restrictions tree p.1).bind fun pool =>
      (respellLikePattern p.2.2 pool.1).map fun new => ⟨place p.2.1, p.2.2, new, pool.2⟩

/-- `edits`: one for each node. -/
def spellingEdits (tree : Expr) : List SpellingEdit :=
  let found := literalEdits U E V topN cache policy restrictions tree ++
    patternEdits E V topN cache policy restrictions tree
  ((OrderedDict.ofPairs (found.map fun e => (e.place, e))).entries).map (·.2)

end Edits

/-! ## The rewritten statement -/

/-- What is used of `sqlglot`, in one dialect. -/
structure SqlReader where
  /-- `sqlglot.parse`. -/
  parse : String → Except String (List (Option Expr))
  /-- `meta["start"]` and `meta["end"]` of the node at a place of the parsed text. -/
  position : String → List ℕ → Option (ℕ × ℕ)
  /-- `tree.sql()`. -/
  write : Expr → String

/-- `sqlglot.parse_one`; `none` where it raises. -/
def SqlReader.parseOne (R : SqlReader) (sql : String) : Option Expr :=
  match R.parse sql with
  | .ok (some tree :: _) => some tree
  | _ => none

/-- The token of a literal to be rewritten. -/
structure LiteralSpan where
  /-- Its first character. -/
  first : ℕ
  /-- The first character behind it. -/
  stop : ℕ
  /-- Its `N`. -/
  mark : List Char
  /-- What it is rewritten to. -/
  edit : SpellingEdit

namespace LiteralSpan

/-- The token that replaces it. -/
def source (s : LiteralSpan) : List Char := writeQuoted s.mark s.edit.new.toList

/-- The edit of the text. -/
def textEdit (s : LiteralSpan) : RangeEdit Char := ⟨s.first, s.stop, s.source⟩

/-- What the spans are sorted by. -/
def sortKey (s : LiteralSpan) : ℕ ×ₗ ℕ ×ₗ String := toLex (s.first, toLex (s.stop, String.ofList s.source))

end LiteralSpan

/-- `_source_span`. -/
def sourceSpan (R : SqlReader) (sql : String) (e : SpellingEdit) : Option LiteralSpan :=
  (R.position sql e.place).bind fun (first, last) =>
    if first ≤ last ∧ last < sql.toList.length then
      (readQuoted ((sql.toList.take (last + 1)).drop first)).bind fun (mark, text) =>
        if text = e.old.toList then some ⟨first, last + 1, mark, e⟩ else none
    else none

/-- The literal at the root with another text. -/
def relabelLiteral (text : String) (e : Expr) : Expr :=
  match e.cls with
  | .literal _ isString => .node { e.label with cls := .literal text isString } e.children
  | _ => e

/-- `_set_text`. -/
def setText (text : String) (e : Expr) : Expr :=
  if e.cls = .national then
    .node e.label (e.children.map fun a => if a.1 = .this then (a.1, relabelLiteral text a.2) else a)
  else relabelLiteral text e

/-- A tree with the node at a place changed. -/
def editAt (f : Expr → Expr) : List ℕ → Expr → Expr
  | [], e => f e
  | i :: path, .node l args => .node l (args.modify i fun a => (a.1, editAt f path a.2))

/-- The tree with the literals rewritten. -/
def editedTree (edits : List SpellingEdit) (tree : Expr) : Expr :=
  edits.foldl (fun t e => editAt (setText e.new) e.place t) tree

/-- `SpellingFix`. -/
structure SpellingFix where
  /-- The statement to run. -/
  sql : String
  /-- How many literals were rewritten. -/
  fixed : ℕ := 0
  /-- The columns they are compared with. -/
  columns : List String := []
  deriving DecidableEq

/-- The spans of the literals, the last one first. -/
def sortedSpans (R : SqlReader) (sql : String) (edits : List SpellingEdit) : Option (List LiteralSpan) :=
  (edits.mapM (sourceSpan R sql)).map fun spans => spans.insertionSort fun a b => b.sortKey ≤ a.sortKey

/-- The text with the tokens replaced, the last one first. -/
def rewriteSpans (sql : String) (spans : List LiteralSpan) : String :=
  String.ofList (spans.foldl (fun text s => splice s.textEdit text) sql.toList)

/-- The rewriting of `_fix`; `none` where it leaves the statement as it is: nothing to rewrite, a literal that
is not found, two that overlap, or a text that reads otherwise. -/
def rewriteLiterals (R : SqlReader) (sql : String) (tree : Expr) (edits : List SpellingEdit) : Option SpellingFix :=
  (sortedSpans R sql edits).bind fun spans =>
    let rewritten := rewriteSpans sql spans
    if edits ≠ [] ∧ spans.IsChain (fun larger smaller => smaller.stop ≤ larger.first) ∧
        (R.parseOne rewritten).map R.write = some (R.write (editedTree edits tree)) then
      some ⟨rewritten, edits.length, sortedStrings (edits.flatMap (·.columns)).eraseDups⟩
    else none

/-- **`validate_sql`** of a text. -/
def validateText (T : CharTable) (E : GuardEnv) (R : SqlReader) (dialect : Dialect) (entries : List String)
    (sql : String) : Except Rejection Unit :=
  if strip sql.toList = [] then .error (.correctable "Empty SQL" .other)
  else if dialect = .tsql ∧ (searchFrom (limitDigits T) none sql.toList).isSome then
    .error (.correctable "LIMIT is not valid T-SQL — use TOP instead" .other)
  else
    match R.parse sql with
    | .error message => .error (.correctable ("SQL syntax error: " ++ message) .other)
    | .ok parsed => validateSqlWith E dialect entries parsed

namespace FilterSpelling

section Fix

variable (T : CharTable) (U : UnicodeForms) (E : GuardEnv) (V : VocabularyConfig) (R : SqlReader) (dialect : Dialect)
  (topN : ℕ) (cache : VocabularyCache)

/-- **`fix_filter_spelling`** for the caller's entries; entries that cannot be read change nothing. -/
def fixFilterSpelling (entries : List String) (sql : String) : SpellingFix :=
  match R.parseOne sql, readPolicy E entries with
  | some tree, .ok (policy, restrictions) =>
    (rewriteLiterals R sql tree (spellingEdits U E V topN cache policy restrictions tree)).getD { sql }
  | _, _ => { sql }

/-- **`respell_filters`**: the statement to run and what is audited, `audit_block`, of the literals rewritten. -/
def respellFilters (entries : List String) (sql : String) : String × Option (ℕ × List String) :=
  let fix := fixFilterSpelling U E V R topN cache entries sql
  if fix.fixed = 0 then (sql, none)
  else
    match validateText T E R dialect (principalColumns entries) fix.sql with
    | .error _ => (sql, none)
    | .ok () => (fix.sql, some (fix.fixed, fix.columns))

end Fix

/-! ## What is rewritten -/

/-- **A literal of a text**: what stands before it, and its token. -/
structure LiteralToken where
  /-- From the literal before it. -/
  before : List Char
  /-- Its token. -/
  written : List Char
  /-- Its `N`. -/
  mark : List Char
  /-- What it is rewritten to. -/
  edit : SpellingEdit

/-- The token it is rewritten to. -/
def LiteralToken.source (t : LiteralToken) : List Char := writeQuoted t.mark t.edit.new.toList

/-- **A token reads as its literal**, the old text before and the new one after, under one mark. -/
structure LiteralToken.Reads (t : LiteralToken) : Prop where
  /-- Before. -/
  old : readQuoted t.written = some (t.mark, t.edit.old.toList)
  /-- After. -/
  new : readQuoted t.source = some (t.mark, t.edit.new.toList)

/-- **A text with literals rewritten**: it differs from the other in the tokens of those literals only. -/
def Respelled (edits : List SpellingEdit) (sql sql' : List Char) : Prop :=
  ∃ (tokens : List LiteralToken) (rest : List Char), (tokens.map (·.edit)).Perm edits ∧ (∀ t ∈ tokens, t.Reads) ∧
    sql = weave (tokens.map fun t => (t.before, t.written)) rest ∧
    sql' = weave (tokens.map fun t => (t.before, t.source)) rest

section Rewritten

variable {R : SqlReader} {sql : String} {tree : Expr} {edits : List SpellingEdit}

theorem readQuoted_mark {written mark text : List Char} (h : readQuoted written = some (mark, text)) :
    mark ∈ [[], ['N'], ['n']] := by
  unfold readQuoted at h
  dsimp only at h
  split at h
  · obtain ⟨read, -, heq⟩ := Option.map_eq_some_iff.mp h
    cases heq
    exact nationalMark_mem written
  · cases h

/-- A literal that is found is a token of the text that reads as the old literal. -/
theorem sourceSpan_some {e : SpellingEdit} {s : LiteralSpan} (h : sourceSpan R sql e = some s) :
    s.edit = e ∧ s.first ≤ s.stop ∧ s.stop ≤ sql.toList.length ∧
      readQuoted (s.textEdit.range sql.toList) = some (s.mark, s.edit.old.toList) := by
  obtain ⟨⟨first, last⟩, -, h⟩ := Option.bind_eq_some_iff.mp h
  dsimp only at h
  split at h
  · rename_i hrange
    obtain ⟨⟨mark, text⟩, hread, h⟩ := Option.bind_eq_some_iff.mp h
    dsimp only at h
    split at h
    · rename_i htext
      cases h
      exact ⟨rfl, by dsimp only; omega, hrange.2, htext ▸ hread⟩
    · cases h
  · cases h

theorem map_of_mapM_eq_some {α β : Type} {f : α → Option β} {g : β → α} (hg : ∀ a b, f a = some b → g b = a)
    {l : List α} {results : List β} (h : l.mapM f = some results) : results.map g = l := by
  induction l generalizing results with
  | nil =>
    cases h
    rfl
  | cons a rest ih =>
    rw [List.mapM_cons] at h
    obtain ⟨b, hb, h⟩ := Option.bind_eq_some_iff.mp h
    obtain ⟨bs, hbs, h⟩ := Option.bind_eq_some_iff.mp h
    cases h
    rw [List.map_cons, hg a b hb, ih hbs]

/-- The spans are those of the literals, and tokens of the text. -/
theorem sortedSpans_some {spans : List LiteralSpan} (h : sortedSpans R sql edits = some spans) :
    (spans.map (·.edit)).Perm edits ∧ ∀ s ∈ spans, s.first ≤ s.stop ∧ s.stop ≤ sql.toList.length ∧
      readQuoted (s.textEdit.range sql.toList) = some (s.mark, s.edit.old.toList) := by
  obtain ⟨found, hfound, rfl⟩ := Option.map_eq_some_iff.mp h
  have hperm := List.perm_insertionSort (fun a b : LiteralSpan => b.sortKey ≤ a.sortKey) found
  have hedits := map_of_mapM_eq_some (g := (·.edit)) (fun e s hs => (sourceSpan_some hs).1) hfound
  refine ⟨hedits ▸ hperm.map _, fun s hs => ?_⟩
  obtain ⟨e, -, hspan⟩ := (mem_of_mapM_eq_some hfound).mp (hperm.mem_iff.mp hs)
  exact (sourceSpan_some hspan).2

/-- Spans whose neighbours do not overlap do not overlap. -/
theorem spans_pairwise {spans : List LiteralSpan} (hchain : spans.IsChain fun a b => b.stop ≤ a.first)
    (hrange : ∀ s ∈ spans, s.first ≤ s.stop) : spans.Pairwise fun a b => b.stop ≤ a.first := by
  induction spans with
  | nil => exact List.Pairwise.nil
  | cons s rest ih =>
    have hrest := ih (List.isChain_of_isChain_cons hchain) fun t ht => hrange t (List.mem_cons_of_mem _ ht)
    refine List.pairwise_cons.mpr ⟨fun t ht => ?_, hrest⟩
    cases rest with
    | nil => cases ht
    | cons next rest =>
      have hnext : next.stop ≤ s.first := (List.isChain_cons_cons.mp hchain).1
      rcases List.mem_cons.mp ht with rfl | ht
      · exact hnext
      · have hlater := (List.pairwise_cons.mp hrest).1 t ht
        have := hrange next (List.mem_cons_of_mem _ List.mem_cons_self)
        omega

theorem exists_of_map_snd {α β γ : Type} (f : β → γ) (parts : List (α × γ)) (l : List β)
    (h : parts.map (·.2) = l.map f) :
    ∃ pairs : List (α × β), pairs.map (·.2) = l ∧ parts = pairs.map fun p => (p.1, f p.2) := by
  induction parts generalizing l with
  | nil =>
    cases l with
    | nil => exact ⟨[], rfl, rfl⟩
    | cons b l => cases h
  | cons part parts ih =>
    cases l with
    | nil => cases h
    | cons b l =>
      obtain ⟨hhead, htail⟩ := List.cons.inj h
      obtain ⟨pairs, hpairs, rfl⟩ := ih l htail
      refine ⟨(part.1, b) :: pairs, congrArg _ hpairs, ?_⟩
      rw [List.map_cons, ← hhead]

/-- **Spans that do not overlap are rewritten where they stand.** -/
theorem rewriteSpans_respelled {spans : List LiteralSpan} (hspans : sortedSpans R sql edits = some spans)
    (hchain : spans.IsChain fun a b => b.stop ≤ a.first) :
    Respelled edits sql.toList (rewriteSpans sql spans).toList := by
  obtain ⟨hedits, hrange⟩ := sortedSpans_some hspans
  have hordered : (spans.reverse.map LiteralSpan.textEdit).Pairwise fun e f => e.stop ≤ f.first := by
    rw [List.pairwise_map, List.pairwise_reverse]
    exact spans_pairwise hchain fun s hs => (hrange s hs).1
  have hinside : ∀ e ∈ spans.reverse.map LiteralSpan.textEdit, e.first ≤ e.stop ∧ e.stop ≤ sql.toList.length := by
    intro e he
    obtain ⟨s, hs, rfl⟩ := List.mem_map.mp he
    obtain ⟨hle, hstop, -⟩ := hrange s (List.mem_reverse.mp hs)
    exact ⟨hle, hstop⟩
  have hwritten : (rewriteSpans sql spans).toList =
      rewriteFrom (spans.reverse.map LiteralSpan.textEdit) 0 sql.toList := by
    rw [rewriteSpans, String.toList_ofList, ← foldr_splice hordered hinside, List.foldr_map, List.foldr_reverse]
  obtain ⟨parts, rest, hparts, hbefore, hafter⟩ := @rewriteFrom_weave Char _ sql.toList [] hordered fun e he =>
    ⟨Nat.zero_le _, (hinside e he).1, (hinside e he).2.trans (Nat.le_add_left _ _)⟩
  obtain ⟨pairs, hpairs, rfl⟩ := exists_of_map_snd LiteralSpan.textEdit parts _ hparts
  rw [List.map_map] at hbefore hafter
  refine ⟨pairs.map fun p => ⟨p.1, p.2.textEdit.range sql.toList, p.2.mark, p.2.edit⟩, rest, ?_, fun t ht => ?_, ?_, ?_⟩
  · have hsame : (pairs.map fun p => p.2.edit) = (spans.map (·.edit)).reverse := by
      rw [← List.map_reverse, ← hpairs, List.map_map]
      rfl
    rw [List.map_map]
    exact (hsame ▸ (List.reverse_perm _) : (pairs.map fun p => p.2.edit).Perm _).trans hedits
  · obtain ⟨p, hp, rfl⟩ := List.mem_map.mp ht
    have hspan : p.2 ∈ spans := List.mem_reverse.mp (hpairs ▸ List.mem_map_of_mem hp)
    obtain ⟨-, -, hread⟩ := hrange p.2 hspan
    exact ⟨hread, readQuoted_writeQuoted (readQuoted_mark hread) _⟩
  · rw [List.map_map]
    exact hbefore
  · rw [List.map_map, hwritten]
    exact hafter

end Rewritten

section Run

variable {T : CharTable} {U : UnicodeForms} {E : GuardEnv} {V : VocabularyConfig} {R : SqlReader} {dialect : Dialect}
  {topN : ℕ} {cache : VocabularyCache} {policy : ColumnPolicy} {restrictions : JoinOnlyRestrictions}

/-- **A statement rewritten for a caller**, and what is audited of it. -/
structure Respelling (T : CharTable) (E : GuardEnv) (R : SqlReader) (dialect : Dialect) (entries : List String)
    (sql : String) (tree : Expr) (edits : List SpellingEdit) (out : String × Option (ℕ × List String)) : Prop where
  /-- Some literal is rewritten. -/
  some_edit : edits ≠ []
  /-- Nothing but literals is. -/
  tokens : Respelled edits sql.toList out.1.toList
  /-- The text reads as the tree with those literals rewritten. -/
  reads : (R.parseOne out.1).map R.write = some (R.write (editedTree edits tree))
  /-- The guard accepts it. -/
  accepted : validateText T E R dialect (principalColumns entries) out.1 = .ok ()
  /-- The audit has the number of literals and the names of their columns, in order and each once. -/
  audited : ∃ columns, out.2 = some (edits.length, columns) ∧ columns.Pairwise (· ≤ ·) ∧ columns.Nodup ∧
    ∀ name, name ∈ columns ↔ ∃ e ∈ edits, name ∈ e.columns

theorem rewriteLiterals_some {sql : String} {tree : Expr} {edits : List SpellingEdit} {fix : SpellingFix}
    (h : rewriteLiterals R sql tree edits = some fix) :
    edits ≠ [] ∧ Respelled edits sql.toList fix.sql.toList ∧
      (R.parseOne fix.sql).map R.write = some (R.write (editedTree edits tree)) ∧ fix.fixed = edits.length ∧
      fix.columns = sortedStrings (edits.flatMap (·.columns)).eraseDups := by
  obtain ⟨spans, hspans, h⟩ := Option.bind_eq_some_iff.mp h
  dsimp only at h
  split at h
  · rename_i hsafe
    cases h
    exact ⟨hsafe.1, rewriteSpans_respelled hspans hsafe.2.1, hsafe.2.2, rfl, rfl⟩
  · cases h

/-- **A statement is run as it is, or with literals rewritten.** The text that is run differs from the given one
in the tokens of literals only, each reads as its old text before and as a new one after, under the same `N`;
the text reads as the tree with these literals rewritten, and the guard accepts it for the caller. -/
theorem respellFilters_splices (entries : List String) (sql : String) :
    respellFilters T U E V R dialect topN cache entries sql = (sql, none) ∨
      ∃ tree policy restrictions, R.parseOne sql = some tree ∧ readPolicy E entries = .ok (policy, restrictions) ∧
        Respelling T E R dialect entries sql tree (spellingEdits U E V topN cache policy restrictions tree)
          (respellFilters T U E V R dialect topN cache entries sql) := by
  unfold respellFilters
  dsimp only
  split
  · exact .inl rfl
  · rename_i hfixed
    cases hguard : validateText T E R dialect (principalColumns entries)
        (fixFilterSpelling U E V R topN cache entries sql).sql with
    | error rejection => exact .inl rfl
    | ok accepted =>
      right
      dsimp only
      revert hfixed hguard
      unfold fixFilterSpelling
      cases hparse : R.parseOne sql with
      | none => exact fun hfixed _ => absurd rfl hfixed
      | some tree =>
        cases hpolicy : readPolicy E entries with
        | error message => exact fun hfixed _ => absurd rfl hfixed
        | ok read =>
          obtain ⟨policy, restrictions⟩ := read
          dsimp only
          cases hrewrite : rewriteLiterals R sql tree (spellingEdits U E V topN cache policy restrictions tree) with
          | none => exact fun hfixed _ => absurd rfl hfixed
          | some fix =>
            intro _ hguard
            rw [Option.getD_some] at hguard ⊢
            obtain ⟨hsome, htokens, hreads, hcount, hcolumns⟩ := rewriteLiterals_some hrewrite
            refine ⟨tree, policy, restrictions, rfl, rfl, hsome, htokens, hreads, hguard, fix.columns, ?_, ?_, ?_, ?_⟩
            · rw [hcount]
            · rw [hcolumns]
              exact sortedStrings_sorted _
            · rw [hcolumns]
              exact (sortedStrings_perm _).nodup_iff.mpr (eraseDups_nodup _)
            · intro name
              rw [hcolumns, (sortedStrings_perm _).mem_iff, List.mem_eraseDups, List.mem_flatMap]

/-! ## What a rewritten literal finds -/

/-- A value the caller may be shown of the stored columns that a column of a statement reads. -/
def KnownValue (E : GuardEnv) (V : VocabularyConfig) (topN : ℕ) (cache : VocabularyCache) (policy : ColumnPolicy)
    (restrictions : JoinOnlyRestrictions) (tree : Expr) (column : ExprOcc) (v : String) : Prop :=
  ∃ o ∈ originsAt E.schema tree column, ∃ values, HasValues E V topN cache policy restrictions o values ∧ v ∈ values

/-- **A literal respelled**, among the values of its column: it gets the one value of the same letters, and finds
what it found. -/
structure LiteralRespelled (U : UnicodeForms) (equal : String → String → Prop) (known : String → Prop)
    (e : SpellingEdit) : Prop where
  /-- It is no value. -/
  unknown : ¬ known e.old
  /-- It becomes one. -/
  stored : known e.new
  /-- Of the same letters. -/
  letters : letterKey U e.new = letterKey U e.old
  /-- The only one. -/
  only : ∀ v, known v → letterKey U v = letterKey U e.old → v = e.new
  /-- What it found it finds. -/
  finds : ∀ v, known v → equal v e.old → equal v e.new

/-- **A pattern respelled**, among the values of its column: it finds what it found, when it has no set. -/
def PatternRespelled (rules : LikeRules) (known : String → Prop) (e : SpellingEdit) : Prop :=
  '[' ∉ e.old.toList → ∀ v, known v → likeMatches rules e.old.toList v.toList = true →
    likeMatches rules e.new.toList v.toList = true

theorem mem_spellingPool {tree : Expr} {column : ExprOcc} {pool : List String × List String}
    (h : spellingPool E V topN cache policy restrictions tree column = some pool) (v : String) :
    v ∈ pool.1 ↔ KnownValue E V topN cache policy restrictions tree column v := by
  unfold spellingPool at h
  split at h
  · cases h
  · rename_i vocabularies hne
    cases h
    have hpool : v ∈ poolOf (usableVocabularies E V topN cache policy restrictions (originsAt E.schema tree column)) ↔
        CandidateValue E V topN cache policy restrictions ⟨originsAt E.schema tree column, "", ""⟩ v :=
      mem_poolOf_iff (c := ⟨originsAt E.schema tree column, "", ""⟩) hne
    exact hpool

/-- What is rewritten are literals of comparisons and patterns. -/
theorem mem_spellingEdits {tree : Expr} {e : SpellingEdit}
    (he : e ∈ spellingEdits U E V topN cache policy restrictions tree) :
    e ∈ literalEdits U E V topN cache policy restrictions tree ∨
      e ∈ patternEdits E V topN cache policy restrictions tree := by
  obtain ⟨entry, hentry, rfl⟩ := List.mem_map.mp he
  obtain ⟨p, hp, rfl⟩ := OrderedDict.exists_of_mem_ofPairs hentry
  obtain ⟨found, hfound, rfl⟩ := List.mem_map.mp hp
  exact List.mem_append.mp hfound

theorem mem_literalEdits {tree : Expr} {e : SpellingEdit}
    (he : e ∈ literalEdits U E V topN cache policy restrictions tree) :
    ∃ c ∈ comparisonLiterals tree, ∃ l ∈ c.literals, ∃ pool,
      spellingPool E V topN cache policy restrictions tree c.column = some pool ∧ e.place = place l.1 ∧ e.old = l.2 ∧
        e.columns = pool.2 ∧ respellLiteral U V.normalize l.2 pool.1 = some e.new := by
  obtain ⟨c, hc, he⟩ := List.mem_flatMap.mp he
  split at he
  · cases he
  · rename_i pool hpool
    obtain ⟨l, hl, hl'⟩ := List.mem_filterMap.mp he
    obtain ⟨new, hnew, rfl⟩ := Option.map_eq_some_iff.mp hl'
    exact ⟨c, hc, l, hl, pool, hpool, rfl, rfl, rfl, hnew⟩

theorem mem_patternEdits {tree : Expr} {e : SpellingEdit}
    (he : e ∈ patternEdits E V topN cache policy restrictions tree) :
    ∃ p ∈ likePatterns tree, ∃ pool, spellingPool E V topN cache policy restrictions tree p.1 = some pool ∧
      e.place = place p.2.1 ∧ e.old = p.2.2 ∧ e.columns = pool.2 ∧ respellLikePattern p.2.2 pool.1 = some e.new := by
  obtain ⟨p, hp, he⟩ := List.mem_filterMap.mp he
  obtain ⟨pool, hpool, he⟩ := Option.bind_eq_some_iff.mp he
  obtain ⟨new, hnew, rfl⟩ := Option.map_eq_some_iff.mp he
  exact ⟨p, hp, pool, hpool, rfl, rfl, rfl, hnew⟩

/-- **The rewriting does not depend on refused columns**: whatever the cache holds of the columns the guard
refuses to the caller, the same statement is run and the same is audited, when the names of the configured
columns fold to their lower case. -/
theorem respellFilters_insensitive {entries : List String}
    (hfold : ∀ table column, PrefetchColumn V table column →
      E.schema.case.casefold column = E.schema.case.lower column)
    {cache' : VocabularyCache}
    (hagree : ∀ table column, ¬ RefusesColumn E entries table column → cache table column = cache' table column)
    (sql : String) :
    respellFilters T U E V R dialect topN cache entries sql =
      respellFilters T U E V R dialect topN cache' entries sql := by
  have hfix : fixFilterSpelling U E V R topN cache entries sql = fixFilterSpelling U E V R topN cache' entries sql := by
    unfold fixFilterSpelling
    cases hparse : R.parseOne sql with
    | none => rfl
    | some tree =>
      cases hpolicy : readPolicy E entries with
      | error message => rfl
      | ok read =>
        obtain ⟨policy, restrictions⟩ := read
        have hpool : ∀ tree, spellingPool E V topN cache policy restrictions tree =
            spellingPool E V topN cache' policy restrictions tree := by
          intro tree
          funext column
          unfold spellingPool usableVocabularies
          rw [funext (originVocabulary_congr hpolicy hfold hagree)]
        have hedits : ∀ tree, spellingEdits U E V topN cache policy restrictions tree =
            spellingEdits U E V topN cache' policy restrictions tree := by
          intro tree
          unfold spellingEdits literalEdits patternEdits
          rw [hpool tree]
        dsimp only
        rw [hedits tree]
  unfold respellFilters
  rw [hfix]


end Run

/-! ## One statement -/

open Expr in
/-- `SELECT ID FROM sales.Customer WHERE Name = N'…'`. -/
def namedTree (text : String) : Expr := .ofCls .select
  [(.expressions, columnRef "" "ID"), (.from_, .ofCls .fromClause [(.this, tableRef "sales" "Customer" "")]),
    (.where_, .ofCls .whereClause [(.this, equals (columnRef "" "Name")
      (.ofCls .national [(.this, .ofCls (.literal text true))]))])]

/-- Its text. -/
def namedText (text : String) : String := "SELECT ID FROM sales.Customer WHERE Name = N'" ++ text ++ "'"

/-- A name as it is stored, with an Arabic yeh. -/
def aliStored : String := "\u0639\u0644\u064a"

/-- And as it is asked for. -/
def aliAsked : String := "\u0639\u0644\u06cc"

/-- The stored name in the cache. -/
def aliCached : VocabularyCache := fun table column =>
  if table = "sales.Customer" ∧ column = "Name" then some ([aliStored], true) else none

/-- `sqlglot` on the two texts. -/
def namedReader : SqlReader where
  parse sql := ([aliAsked, aliStored].find? fun text => sql = namedText text).elim (.error "") fun text =>
    .ok [some (namedTree text)]
  position _ path := if path = [2, 0, 1] then some (43, 48) else none
  write tree := namedText (if (preorder tree).any (·.node.cls = .literal aliStored true) then aliStored else aliAsked)

/-- Patterns compared letter by letter. -/
def exactRules : LikeRules where
  same c x := c == x
  escape := '!'
  closes _ := true
  member content x := x ∈ content
  same_refl _ := beq_self_eq_true _
  same_mark _ _ _ h := (eq_of_beq h).symm

theorem exactRules_keepsGroups : KeepsGroups exactRules := by
  refine ⟨fun g _ c hc x hsame => ?_, fun g hg => ?_⟩
  · rw [← eq_of_beq hsame]
    exact .inl hc
  · simp only [letterFormGroups, List.mem_cons, List.not_mem_nil, or_false] at hg
    obtain rfl | rfl := hg <;> decide

theorem equalReadsAlike_eq (normalize : String → String) : EqualReadsAlike normalize Eq := ⟨fun _ => rfl, fun _ _ h => h ▸ rfl⟩

/-- The name as asked for becomes the stored one. -/
example : respellFilters .ascii plainForms salesEnv customerVocabulary namedReader .tsql 1000 aliCached []
    (namedText aliAsked) = (namedText aliStored, some (1, ["sales.Customer.Name"])) := rfl

/-- The edit of the example. -/
def aliEdit : SpellingEdit := ⟨[2, 0, 1], aliAsked, aliStored, ["sales.Customer.Name"]⟩

theorem spellingEdits_ali : spellingEdits plainForms salesEnv customerVocabulary 1000 aliCached {} unrestricted
    (namedTree aliAsked) = [aliEdit] := rfl

/-- A caller who may not read the names has the statement run as it is. -/
theorem respellFilters_insensitive_name :
    respellFilters .ascii plainForms salesEnv customerVocabulary namedReader .tsql 1000 aliCached ["Name"]
        (namedText aliAsked) =
      respellFilters .ascii plainForms salesEnv customerVocabulary namedReader .tsql 1000 (fun _ _ => none) ["Name"]
        (namedText aliAsked) := by
  refine respellFilters_insensitive foldsLower_customer (fun table column hseen => ?_) _
  unfold aliCached
  split
  · rename_i hname
    refine absurd ?_ hseen
    rw [hname.2]
    exact Or.inl (by decide)
  · rfl

end FilterSpelling

end LocalSqlAgent
