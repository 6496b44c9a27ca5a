import Mathlib.Data.List.Basic
import Mathlib.Data.List.SplitOn

/-! # Python text

What `str`, `re` and `unicodedata` say about single characters: `str.isspace`, which is also what
`\s` matches, the format characters, the stripping of a text's ends and `str.split`. What `\w` and `\d`
match depends on the interpreter's Unicode tables and is a parameter (`CharTable`). -/

namespace LocalSqlAgent

/-- `str.isspace` on one character. -/
def isPySpace (c : Char) : Bool :=
  let n := c.toNat
  (9 ≤ n && n ≤ 13) || (28 ≤ n && n ≤ 32) || n = 133 || n = 160 || n = 5760 ||
    (8192 ≤ n && n ≤ 8202) || n = 8232 || n = 8233 || n = 8239 || n = 8287 || n = 12288

/-- `str.rstrip()`. -/
def rstrip (cs : List Char) : List Char := (cs.reverse.dropWhile isPySpace).reverse

/-- `str.lstrip()`. -/
def lstrip (cs : List Char) : List Char := cs.dropWhile isPySpace

/-- `str.strip()`. -/
def strip (cs : List Char) : List Char := rstrip (lstrip cs)

/-- `str.strip` of the characters of a set. -/
def stripSet (set : List Char) (cs : List Char) : List Char :=
  ((cs.dropWhile (· ∈ set)).reverse.dropWhile (· ∈ set)).reverse

/-- `re.sub` of `\s+` by a blank: every run of whitespace becomes one blank. -/
def collapseSpaces : List Char → List Char
  | [] => []
  | c :: rest =>
    if isPySpace c then
      if rest.head?.any isPySpace then collapseSpaces rest else ' ' :: collapseSpaces rest
    else c :: collapseSpaces rest

/-- `str.split` at one character. -/
def splitText (sep : Char) (s : String) : List String := (s.toList.splitOn sep).map String.ofList

/-- The code points of Unicode category `Cf`, as ranges. -/
def formatRanges : List (Nat × Nat) :=
  [(0xAD, 0xAD), (0x600, 0x605), (0x61C, 0x61C), (0x6DD, 0x6DD), (0x70F, 0x70F), (0x890, 0x891),
   (0x8E2, 0x8E2), (0x180E, 0x180E), (0x200B, 0x200F), (0x202A, 0x202E), (0x2060, 0x2064),
   (0x2066, 0x206F), (0xFEFF, 0xFEFF), (0xFFF9, 0xFFFB), (0x110BD, 0x110BD), (0x110CD, 0x110CD),
   (0x13430, 0x1343F), (0x1BCA0, 0x1BCA3), (0x1D173, 0x1D17A), (0xE0001, 0xE0001),
   (0xE0020, 0xE007F)]

/-- `unicodedata.category(c) == "Cf"`. -/
def isFormatChar (c : Char) : Bool := formatRanges.any fun r => r.1 ≤ c.toNat && c.toNat ≤ r.2

/-- **The character classes of `re`**, as the interpreter's Unicode tables have them. -/
structure CharTable where
  /-- `\w`. -/
  isWord : Char → Bool
  /-- `\d`. -/
  isDecimal : Char → Bool
  /-- The ASCII word characters. -/
  word_ascii : ∀ c, c.toNat < 128 → isWord c = (c.isAlphanum || c == '_')
  /-- No white space is a word character. -/
  word_space : ∀ c, isPySpace c = true → isWord c = false
  /-- A decimal digit is a word character. -/
  word_decimal : ∀ c, isDecimal c = true → isWord c = true
  /-- The letters outside ASCII that are an ASCII one up to case. -/
  word_folded : isWord 'ſ' = true ∧ isWord 'ı' = true ∧ isWord 'İ' = true

/-- The ASCII letters and digits, as code points. -/
theorem isAlphanum_iff (c : Char) : c.isAlphanum = true ↔
    (48 ≤ c.toNat ∧ c.toNat ≤ 57) ∨ (65 ≤ c.toNat ∧ c.toNat ≤ 90) ∨ (97 ≤ c.toNat ∧ c.toNat ≤ 122) := by
  have hclass : c.isAlphanum = (decide (c.val ≥ 'A'.val ∧ c.val ≤ 'Z'.val) ||
      (c.val ≥ 'a'.val && c.val ≤ 'z'.val) || (c.val ≥ '0'.val && c.val ≤ '9'.val)) := rfl
  rw [hclass]
  simp only [Bool.or_eq_true, Bool.and_eq_true, decide_eq_true_eq, ge_iff_le, UInt32.le_iff_toNat_le,
    Char.toNat]
  tauto

/-- The classes with no letters and digits beyond those. -/
def CharTable.ascii : CharTable where
  isWord c := c.isAlphanum || c ∈ ['_', 'ſ', 'ı', 'İ']
  isDecimal c := c.isDigit
  word_ascii c h := by
    have hfold : c ≠ 'ſ' ∧ c ≠ 'ı' ∧ c ≠ 'İ' := by
      refine ⟨?_, ?_, ?_⟩ <;> rintro rfl <;> exact absurd h (by decide)
    simp [hfold, beq_eq_decide]
  word_space c h := by
    have hn : ¬ c.isAlphanum = true := by
      rw [isAlphanum_iff]
      simp only [isPySpace, Bool.or_eq_true, Bool.and_eq_true, decide_eq_true_eq] at h
      omega
    have hm : c ∉ ['_', 'ſ', 'ı', 'İ'] := by
      simp only [List.mem_cons, List.not_mem_nil, or_false]
      rintro (rfl | rfl | rfl | rfl) <;> exact absurd h (by decide)
    simp [hn, hm]
  word_decimal c h := by simp [Char.isAlphanum, h]
  word_folded := by decide

/-- `re.IGNORECASE` on one small letter of a pattern (`k`, which has the Kelvin sign too, is in none). -/
def sameLetter (letter c : Char) : Bool :=
  c.toLower == letter || (letter == 's' && c == 'ſ') ||
    (letter == 'i' && (c == 'ı' || c == 'İ'))

/-- A character is a letter up to case when it is the letter itself, or the capital one. -/
theorem toLower_eq {c p : Char} (h : c.toLower = p) :
    c = p ∨ (65 ≤ c.toNat ∧ c.toNat ≤ 90 ∧ p.toNat = c.toNat + 32) := by
  by_cases hup : c.val ≥ 'A'.val ∧ c.val ≤ 'Z'.val
  · have hval : c.toLower.val = c.val + 32 := congrArg Char.val (dif_pos hup)
    rw [show 'A'.val = 65 from rfl, show 'Z'.val = 90 from rfl] at hup
    simp only [ge_iff_le, UInt32.le_iff_toNat_le, UInt32.reduceToNat] at hup
    refine .inr ⟨hup.1, hup.2, ?_⟩
    rw [← h]
    show c.toLower.val.toNat = c.val.toNat + 32
    rw [hval, UInt32.toNat_add, show (32 : UInt32).toNat = 32 from rfl]
    omega
  · rw [show c.toLower = c from dif_neg hup] at h
    exact .inl h

/-- What every character of a list is, checked one after the other. -/
theorem forall_mem_of_all {p : Char → Prop} [DecidablePred p] {cs : List Char}
    (h : (cs.all fun c => decide (p c)) = true) : ∀ c ∈ cs, p c :=
  fun c hc => of_decide_eq_true (List.all_eq_true.mp h c hc)

/-- `str.rfind` of one character. -/
def rfindChar (c : Char) (cs : List Char) : Option Nat :=
  if c ∈ cs then some (cs.length - 1 - cs.reverse.idxOf c) else none

end LocalSqlAgent
