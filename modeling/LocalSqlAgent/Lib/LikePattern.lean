import Mathlib.Data.List.Forall2
import Mathlib.Data.List.Infix

/-!
# LIKE patterns

The pattern language of T-SQL's `LIKE … ESCAPE`, read in two steps: a pattern text is cut into
atoms, and the atoms are matched against a value.

* **`LikeRules`**: what a collation and the reading of bracket sets leave open.
* **`LikeAtom`**, **`readPattern`**: the atoms of a pattern; a pattern that ends right after its
  escape character, or inside a bracket set, is not valid and matches nothing.
* **`matchAtoms`**, **`likeMatches`**: the values that the atoms cover.
* **`ShortMatch`**: atoms that match something match a value of a bounded length.
* **`likeMatches_map`**: a pattern with letters written as others still matches a value whose letters
  the collation takes the others for.
-/

namespace LocalSqlAgent

/-- **What the comparison leaves to the server.** `same` compares one character of the pattern
with one of the value under the collation; the text between brackets is read by `closes` (does a
`]` after this text end the set) and `member`. A collation folds letters, so a wildcard and the
escape character are the same as themselves only. -/
structure LikeRules where
  same : Char → Char → Bool
  escape : Char
  closes : List Char → Bool
  member : List Char → Char → Bool
  same_refl : ∀ c, same c c = true
  same_mark : ∀ c x, c ∈ ['%', '_', escape] → same c x = true → x = c

/-- One piece of a pattern. -/
inductive LikeAtom where
  /-- `%`: any run of characters. -/
  | any
  /-- `_`: any one character. -/
  | one
  /-- `[…]`: one character of a set. -/
  | oneOf (members : Char → Bool)
  /-- A character that stands for itself, escaped or not. -/
  | letter (c : Char)

/-- Where the reader of a pattern stands. -/
inductive PatternMode where
  | plain
  | escaped
  | inSet (content : List Char)

/-- **The atoms of a pattern.** The escape character is dropped and what follows it is a regular
character, whatever it is. -/
def readPattern (rules : LikeRules) : PatternMode → List Char → Option (List LikeAtom)
  | .plain, [] => some []
  | .escaped, [] => none
  | .inSet _, [] => none
  | .plain, c :: rest =>
    if c = rules.escape then readPattern rules .escaped rest
    else if c = '[' then readPattern rules (.inSet []) rest
    else if c = '%' then (readPattern rules .plain rest).map (.any :: ·)
    else if c = '_' then (readPattern rules .plain rest).map (.one :: ·)
    else (readPattern rules .plain rest).map (.letter c :: ·)
  | .escaped, c :: rest => (readPattern rules .plain rest).map (.letter c :: ·)
  | .inSet content, c :: rest =>
    if c = ']' ∧ rules.closes content = true then
      (readPattern rules .plain rest).map (.oneOf (rules.member content) :: ·)
    else readPattern rules (.inSet (content ++ [c])) rest

/-- **Whether a value is covered**, atom by atom and from its first character to its last. -/
def matchAtoms (rules : LikeRules) : List LikeAtom → List Char → Bool
  | [], value => value.isEmpty
  | .any :: atoms, value => value.tails.any fun tail => matchAtoms rules atoms tail
  | .one :: _, [] => false
  | .one :: atoms, _ :: value => matchAtoms rules atoms value
  | .oneOf _ :: _, [] => false
  | .oneOf members :: atoms, x :: value => members x && matchAtoms rules atoms value
  | .letter _ :: _, [] => false
  | .letter c :: atoms, x :: value => rules.same c x && matchAtoms rules atoms value

/-- **`value LIKE pattern ESCAPE …`.** -/
def likeMatches (rules : LikeRules) (pattern value : List Char) : Bool :=
  match readPattern rules .plain pattern with
  | none => false
  | some atoms => matchAtoms rules atoms value

/-- **The value contains the text**, the collation's folding aside. -/
def Contains (rules : LikeRules) (text value : List Char) : Prop :=
  ∃ before part after, value = before ++ part ++ after ∧
    List.Forall₂ (fun c x => rules.same c x = true) text part

section
variable {rules : LikeRules} {atoms : List LikeAtom} {value : List Char}

/-! ## Reading, one character at a time -/

theorem readPattern_plain_cons {c : Char} {rest : List Char} :
    readPattern rules .plain (c :: rest) =
      if c = rules.escape then readPattern rules .escaped rest
      else if c = '[' then readPattern rules (.inSet []) rest
      else if c = '%' then (readPattern rules .plain rest).map (.any :: ·)
      else if c = '_' then (readPattern rules .plain rest).map (.one :: ·)
      else (readPattern rules .plain rest).map (.letter c :: ·) := rfl

theorem readPattern_inSet_cons {c : Char} {rest content : List Char} :
    readPattern rules (.inSet content) (c :: rest) =
      if c = ']' ∧ rules.closes content = true then
        (readPattern rules .plain rest).map (.oneOf (rules.member content) :: ·)
      else readPattern rules (.inSet (content ++ [c])) rest := rfl

/-! ## Matching, one atom at a time -/

theorem likeMatches_eq_true_iff {pattern : List Char} :
    likeMatches rules pattern value = true ↔
      ∃ atoms, readPattern rules .plain pattern = some atoms ∧
        matchAtoms rules atoms value = true := by
  unfold likeMatches
  cases readPattern rules .plain pattern <;> simp

@[simp] theorem matchAtoms_nil : matchAtoms rules [] value = true ↔ value = [] :=
  List.isEmpty_iff

/-- `%` takes any front of the value. -/
theorem matchAtoms_any :
    matchAtoms rules (.any :: atoms) value = true ↔
      ∃ front tail, value = front ++ tail ∧ matchAtoms rules atoms tail = true := by
  show (value.tails.any fun tail => matchAtoms rules atoms tail) = true ↔ _
  rw [List.any_eq_true]
  constructor
  · rintro ⟨tail, mem, covered⟩
    obtain ⟨front, rfl⟩ := (List.mem_tails _ _).mp mem
    exact ⟨front, tail, rfl, covered⟩
  · rintro ⟨front, tail, rfl, covered⟩
    exact ⟨tail, (List.mem_tails _ _).mpr ⟨front, rfl⟩, covered⟩

theorem matchAtoms_one :
    matchAtoms rules (.one :: atoms) value = true ↔
      ∃ x tail, value = x :: tail ∧ matchAtoms rules atoms tail = true := by
  cases value with
  | nil => exact ⟨fun h => absurd h Bool.false_ne_true, fun ⟨_, _, h, _⟩ => by cases h⟩
  | cons x value =>
    exact ⟨fun h => ⟨x, value, rfl, h⟩, fun ⟨_, _, h, covered⟩ => by cases h; exact covered⟩

theorem matchAtoms_oneOf {members : Char → Bool} :
    matchAtoms rules (.oneOf members :: atoms) value = true ↔
      ∃ x tail, value = x :: tail ∧ members x = true ∧ matchAtoms rules atoms tail = true := by
  cases value with
  | nil => exact ⟨fun h => absurd h Bool.false_ne_true, fun ⟨_, _, h, _⟩ => by cases h⟩
  | cons x value =>
    show (members x && matchAtoms rules atoms value) = true ↔ _
    rw [Bool.and_eq_true]
    exact ⟨fun h => ⟨x, value, rfl, h⟩, fun ⟨_, _, h, covered⟩ => by cases h; exact covered⟩

theorem matchAtoms_letter {c : Char} :
    matchAtoms rules (.letter c :: atoms) value = true ↔
      ∃ x tail, value = x :: tail ∧ rules.same c x = true ∧
        matchAtoms rules atoms tail = true := by
  cases value with
  | nil => exact ⟨fun h => absurd h Bool.false_ne_true, fun ⟨_, _, h, _⟩ => by cases h⟩
  | cons x value =>
    show (rules.same c x && matchAtoms rules atoms value) = true ↔ _
    rw [Bool.and_eq_true]
    exact ⟨fun h => ⟨x, value, rfl, h⟩, fun ⟨_, _, h, covered⟩ => by cases h; exact covered⟩

/-- **A run of letters** takes a front of the value that is the same text. -/
theorem matchAtoms_letters (text : List Char) :
    matchAtoms rules (text.map .letter ++ atoms) value = true ↔
      ∃ part tail, value = part ++ tail ∧
        List.Forall₂ (fun c x => rules.same c x = true) text part ∧
        matchAtoms rules atoms tail = true := by
  induction text generalizing value with
  | nil => simp
  | cons c text ih =>
    rw [List.map_cons, List.cons_append, matchAtoms_letter]
    constructor
    · rintro ⟨x, rest, rfl, same, covered⟩
      obtain ⟨part, tail, rfl, parts, last⟩ := ih.mp covered
      exact ⟨x :: part, tail, rfl, .cons same parts, last⟩
    · rintro ⟨part, tail, rfl, parts, last⟩
      cases parts with
      | cons same parts => exact ⟨_, _, rfl, same, ih.mpr ⟨_, _, rfl, parts, last⟩⟩

/-- Every text is the same as itself. -/
theorem same_self (text : List Char) :
    List.Forall₂ (fun c x => rules.same c x = true) text text :=
  List.forall₂_same.mpr fun c _ => rules.same_refl c

theorem contains_self (text : List Char) : Contains rules text text :=
  ⟨[], text, [], by simp, same_self text⟩

/-- A value that contains a text is at least as long. -/
theorem Contains.length_le {text : List Char} (h : Contains rules text value) :
    text.length ≤ value.length := by
  obtain ⟨before, part, after, rfl, parts⟩ := h
  have := parts.length_eq
  simp only [List.length_append]
  omega

/-- A value of the text's own length contains it only as a whole. -/
theorem Contains.forall₂_of_length {text : List Char} (h : Contains rules text value)
    (short : value.length ≤ text.length) :
    List.Forall₂ (fun c x => rules.same c x = true) text value := by
  obtain ⟨before, part, after, rfl, parts⟩ := h
  have lengths := parts.length_eq
  simp only [List.length_append] at short
  have front : before = [] := List.length_eq_zero_iff.mp (by omega)
  have back : after = [] := List.length_eq_zero_iff.mp (by omega)
  simpa [front, back] using parts

/-! ## Short values -/

/-- **A short match.** If the atoms match any value at all, they match one of at most `bound`
characters. -/
def ShortMatch (rules : LikeRules) (atoms : List LikeAtom) (bound : Nat) : Prop :=
  (∃ value, matchAtoms rules atoms value = true) →
    ∃ value, matchAtoms rules atoms value = true ∧ value.length ≤ bound

variable {bound : Nat}

theorem ShortMatch.mono {more : Nat} (h : ShortMatch rules atoms bound) (le : bound ≤ more) :
    ShortMatch rules atoms more := by
  intro some_match
  obtain ⟨value, covered, short⟩ := h some_match
  exact ⟨value, covered, by omega⟩

theorem shortMatch_nil : ShortMatch rules [] 0 :=
  fun _ => ⟨[], matchAtoms_nil.mpr rfl, le_rfl⟩

theorem ShortMatch.any (h : ShortMatch rules atoms bound) :
    ShortMatch rules (.any :: atoms) bound := by
  rintro ⟨value, covered⟩
  obtain ⟨front, tail, -, rest⟩ := matchAtoms_any.mp covered
  obtain ⟨short, covered, le⟩ := h ⟨tail, rest⟩
  exact ⟨short, matchAtoms_any.mpr ⟨[], short, rfl, covered⟩, le⟩

theorem ShortMatch.one (h : ShortMatch rules atoms bound) :
    ShortMatch rules (.one :: atoms) (bound + 1) := by
  rintro ⟨value, covered⟩
  obtain ⟨x, tail, rfl, covered⟩ := matchAtoms_one.mp covered
  obtain ⟨short, covered, le⟩ := h ⟨tail, covered⟩
  exact ⟨x :: short, matchAtoms_one.mpr ⟨x, short, rfl, covered⟩, by simpa using le⟩

theorem ShortMatch.oneOf {members : Char → Bool} (h : ShortMatch rules atoms bound) :
    ShortMatch rules (.oneOf members :: atoms) (bound + 1) := by
  rintro ⟨value, covered⟩
  obtain ⟨x, tail, rfl, taken, covered⟩ := matchAtoms_oneOf.mp covered
  obtain ⟨short, covered, le⟩ := h ⟨tail, covered⟩
  exact ⟨x :: short, matchAtoms_oneOf.mpr ⟨x, short, rfl, taken, covered⟩, by simpa using le⟩

theorem ShortMatch.letter {c : Char} (h : ShortMatch rules atoms bound) :
    ShortMatch rules (.letter c :: atoms) (bound + 1) := by
  rintro ⟨value, covered⟩
  obtain ⟨x, tail, rfl, same, covered⟩ := matchAtoms_letter.mp covered
  obtain ⟨short, covered, le⟩ := h ⟨tail, covered⟩
  exact ⟨x :: short, matchAtoms_letter.mpr ⟨x, short, rfl, same, covered⟩, by simpa using le⟩

/-! ## Letters written as others -/

/-- The atom with its letter as another one. -/
def LikeAtom.mapLetter (f : Char → Char) : LikeAtom → LikeAtom
  | .letter c => .letter (f c)
  | atom => atom

/-- **Other letters only**: what is read as a wildcard, as the escape character or as the start of a
set stays, and nothing else becomes it. -/
structure KeepsMarks (rules : LikeRules) (f : Char → Char) : Prop where
  fixed : ∀ c ∈ ['%', '_', '[', rules.escape], f c = c
  plain : ∀ c, f c ∈ ['%', '_', '[', rules.escape] → c ∈ ['%', '_', '[', rules.escape]

variable {f : Char → Char}

/-- The atoms of a pattern with other letters, of one without sets. -/
theorem readPattern_map (marks : KeepsMarks rules f) {pattern : List Char} (no_set : '[' ∉ pattern) :
    readPattern rules .plain (pattern.map f) =
        (readPattern rules .plain pattern).map (·.map (.mapLetter f)) ∧
      readPattern rules .escaped (pattern.map f) =
        (readPattern rules .escaped pattern).map (·.map (.mapLetter f)) := by
  induction pattern with
  | nil => exact ⟨rfl, rfl⟩
  | cons c rest ih =>
    obtain ⟨plain, escaped⟩ := ih fun mem => no_set (List.mem_cons_of_mem _ mem)
    have cons_map (g : LikeAtom) : (readPattern rules .plain (rest.map f)).map (g.mapLetter f :: ·) =
        ((readPattern rules .plain rest).map (g :: ·)).map (·.map (.mapLetter f)) := by
      rw [plain, Option.map_map, Option.map_map]
      rfl
    refine ⟨?_, cons_map (.letter c)⟩
    rw [List.map_cons, readPattern_plain_cons, readPattern_plain_cons]
    by_cases mark : c ∈ ['%', '_', '[', rules.escape]
    · rw [marks.fixed c mark]
      have bracket : c ≠ '[' := fun h => no_set (h ▸ List.mem_cons_self)
      by_cases escape : c = rules.escape
      · rw [if_pos escape, if_pos escape]
        exact escaped
      rw [if_neg escape, if_neg escape, if_neg bracket, if_neg bracket]
      by_cases percent : c = '%'
      · rw [if_pos percent, if_pos percent]
        exact cons_map .any
      rw [if_neg percent, if_neg percent]
      have underscore : c = '_' := by simpa [escape, bracket, percent] using mark
      rw [if_pos underscore, if_pos underscore]
      exact cons_map .one
    · have image : f c ∉ ['%', '_', '[', rules.escape] := fun mem => mark (marks.plain c mem)
      simp only [List.mem_cons, List.not_mem_nil, or_false, not_or] at mark image
      obtain ⟨percent, underscore, bracket, escape⟩ := mark
      obtain ⟨percent', underscore', bracket', escape'⟩ := image
      rw [if_neg escape, if_neg escape', if_neg bracket, if_neg bracket', if_neg percent,
        if_neg percent', if_neg underscore, if_neg underscore']
      exact cons_map (.letter c)

/-- A value covered by letters is covered by others that the collation takes for its letters. -/
theorem matchAtoms_map (same : ∀ x ∈ value, ∀ c, rules.same c x = true → rules.same (f c) x = true)
    (covered : matchAtoms rules atoms value = true) :
    matchAtoms rules (atoms.map (.mapLetter f)) value = true := by
  induction atoms generalizing value with
  | nil => exact covered
  | cons atom atoms ih =>
    cases atom with
    | any =>
      obtain ⟨front, tail, rfl, rest⟩ := matchAtoms_any.mp covered
      exact matchAtoms_any.mpr ⟨front, tail, rfl, ih (fun x mem => same x (List.mem_append_right _ mem)) rest⟩
    | one =>
      obtain ⟨x, tail, rfl, rest⟩ := matchAtoms_one.mp covered
      exact matchAtoms_one.mpr ⟨x, tail, rfl, ih (fun x mem => same x (List.mem_cons_of_mem _ mem)) rest⟩
    | oneOf members =>
      obtain ⟨x, tail, rfl, taken, rest⟩ := matchAtoms_oneOf.mp covered
      exact matchAtoms_oneOf.mpr
        ⟨x, tail, rfl, taken, ih (fun x mem => same x (List.mem_cons_of_mem _ mem)) rest⟩
    | letter c =>
      obtain ⟨x, tail, rfl, letter, rest⟩ := matchAtoms_letter.mp covered
      exact matchAtoms_letter.mpr ⟨x, tail, rfl, same x List.mem_cons_self c letter,
        ih (fun x mem => same x (List.mem_cons_of_mem _ mem)) rest⟩

/-- **A pattern with other letters matches what it matched**, of the values whose letters the
collation takes the others for. -/
theorem likeMatches_map (marks : KeepsMarks rules f) {pattern : List Char} (no_set : '[' ∉ pattern)
    (same : ∀ x ∈ value, ∀ c, rules.same c x = true → rules.same (f c) x = true)
    (covered : likeMatches rules pattern value = true) :
    likeMatches rules (pattern.map f) value = true := by
  obtain ⟨atoms, read, covered⟩ := likeMatches_eq_true_iff.mp covered
  refine likeMatches_eq_true_iff.mpr ⟨atoms.map (.mapLetter f), ?_, matchAtoms_map same covered⟩
  rw [(readPattern_map marks no_set).1, read]
  rfl

end

end LocalSqlAgent
