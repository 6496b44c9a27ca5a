import LocalSqlAgent.Lib.PyText
import Mathlib.Data.List.Forall2

/-! # Two Persian normalisers

`core.persian`: `normalize_for_matching` decides which texts are one text for the cache and the matchers,
`letter_form_key` which stored value a filter literal was meant to be. Texts are lists of characters; NFC
and NFKC are given functions with their laws.

* **`normalizeForMatching`**, **`letterFormKey`**: the two normalisers.
* **`KeyFiner`**: two texts with one key have one normal form.
* **`LetterFormsKept`**: where the key does not hide an alef maksura, and NFKC does with both texts what it
  does with them folded.
* **`keyFiner_iff`**: that is enough, and of texts NFKC treats so it is needed. -/

namespace LocalSqlAgent

/-! ## Letters -/

/-- ی, the Persian yeh. -/
def persianYeh : Char := '\u06cc'

/-- ي, the Arabic yeh. -/
def arabicYeh : Char := '\u064a'

/-- ى, the alef maksura. -/
def alefMaksura : Char := '\u0649'

/-- ک, the Persian kaf. -/
def persianKaf : Char := '\u06a9'

/-- ك, the Arabic kaf. -/
def arabicKaf : Char := '\u0643'

/-- `_ZWNJ`. -/
def zwnj : Char := '\u200c'

/-- The two letters that stay apart in a normal form and are one in a key. -/
def isYeh (c : Char) : Bool := c = persianYeh || c = alefMaksura

/-- **The normal forms of Unicode**, as far as the two normalisers rest on them. -/
structure UnicodeForms where
  /-- `unicodedata.normalize("NFC", …)`. -/
  nfc : List Char → List Char
  /-- `unicodedata.normalize("NFKC", …)`. -/
  nfkc : List Char → List Char
  /-- A text and its canonical composition are compatibility equivalent. -/
  nfkc_nfc : ∀ t, nfkc (nfc t) = nfkc t
  /-- A part of a text may be normalised first. -/
  nfkc_part : ∀ x y z, nfkc (x ++ nfkc y ++ z) = nfkc (x ++ y ++ z)
  /-- ی and ى are starters that neither decompose nor compose. -/
  nfkc_yeh : ∀ x c y, isYeh c = true → nfkc (x ++ c :: y) = nfkc x ++ c :: nfkc y

/-- `str.lower`, as far as these letters go: they have no case, and no letter has one of them as its own. -/
structure LowerCase where
  /-- `str.lower`. -/
  lower : List Char → List Char
  /-- ی and ى stay, and no other letter becomes one. -/
  keepsYeh : ∀ t, (lower t).filter isYeh = t.filter isYeh

/-! ## The normalisers -/

/-- `_LETTER_MAP`. -/
def foldLetter (c : Char) : Char :=
  if c = arabicYeh then persianYeh else if c = arabicKaf then persianKaf else c

/-- `_DIGIT_MAP`: Persian and Arabic-Indic digits to ASCII. -/
def foldDigit (c : Char) : Char :=
  if 0x06f0 ≤ c.toNat ∧ c.toNat ≤ 0x06f9 then Char.ofNat (0x30 + (c.toNat - 0x06f0))
  else if 0x0660 ≤ c.toNat ∧ c.toNat ≤ 0x0669 then Char.ofNat (0x30 + (c.toNat - 0x0660))
  else c

/-- `_TRANSLATION_TABLE`: the two maps share no keys. -/
def translateChar (c : Char) : Char :=
  if c = arabicYeh ∨ c = arabicKaf then foldLetter c else foldDigit c

/-- `text.replace(_ZWNJ, "")`. -/
def dropZwnj (text : List Char) : List Char := text.filter (· ≠ zwnj)

/-- `_LETTER_FORM_TABLE`: the letters of `LETTER_FORM_GROUPS`. -/
def foldLetterForm (c : Char) : Char :=
  if c = arabicYeh ∨ c = alefMaksura then persianYeh else if c = arabicKaf then persianKaf else c

/-- `PRESENTATION_FORMS_RE`. -/
def isPresentationForm (c : Char) : Bool :=
  (0xfb50 ≤ c.toNat && c.toNat ≤ 0xfdff) || (0xfe70 ≤ c.toNat && c.toNat ≤ 0xfeff)

section Normalisers

variable (U : UnicodeForms) (L : LowerCase)

/-- `normalize_for_matching`. -/
def normalizeForMatching (text : List Char) : List Char :=
  L.lower (strip (collapseSpaces (dropZwnj ((U.nfkc text).map translateChar))))

/-- `PRESENTATION_FORMS_RE.sub`: each presentation form is normalised by itself. -/
def expandPresentationForms (text : List Char) : List Char :=
  text.flatMap fun c => if isPresentationForm c then U.nfkc [c] else [c]

/-- The text `letter_form_key` folds the letters of. -/
def composed (text : List Char) : List Char := U.nfc (expandPresentationForms U text)

/-- `letter_form_key`. -/
def letterFormKey (text : List Char) : List Char := dropZwnj ((composed U text).map foldLetterForm)

/-- **The key is finer**: what has one key has one normal form. -/
def KeyFiner (a b : List Char) : Prop :=
  letterFormKey U a = letterFormKey U b → normalizeForMatching U L a = normalizeForMatching U L b

/-- ي, ك and ZWNJ folded as in a normal form. -/
def letterFolded (text : List Char) : List Char := dropZwnj (text.map foldLetter)

/-- NFKC does with a text what it does with the text folded, up to that folding. -/
def FoldsAlike (text : List Char) : Prop :=
  letterFolded (U.nfkc (composed U text)) = letterFolded (U.nfkc (letterFolded (composed U text)))

/-- The alef maksuras stand at the same places, ZWNJ aside. -/
def SameMaksuras (a b : List Char) : Prop :=
  (dropZwnj (composed U a)).map (· == alefMaksura) = (dropZwnj (composed U b)).map (· == alefMaksura)

/-- **Where the key hides nothing**: of two texts with one key. -/
def LetterFormsKept (a b : List Char) : Prop :=
  letterFormKey U a = letterFormKey U b → SameMaksuras U a b ∧ FoldsAlike U a ∧ FoldsAlike U b

end Normalisers

/-! ## The normal form of a composed text -/

variable {U : UnicodeForms} {L : LowerCase} {a b s t x : List Char} {c d : Char}

/-- Expanding the presentation forms first changes no normal form. -/
theorem nfkc_expandPresentationForms (x t : List Char) :
    U.nfkc (x ++ expandPresentationForms U t) = U.nfkc (x ++ t) := by
  induction t generalizing x with
  | nil => rfl
  | cons c t ih =>
    rw [expandPresentationForms, List.flatMap_cons]
    change U.nfkc (x ++ (_ ++ expandPresentationForms U t)) = _
    rw [← List.append_assoc, ih]
    split
    · have hpart := U.nfkc_part x [c] t
      rw [List.append_assoc x [c] t] at hpart
      exact hpart
    · rw [List.append_assoc]
      rfl

theorem nfkc_composed (t : List Char) : U.nfkc (composed U t) = U.nfkc t := by
  rw [composed, U.nfkc_nfc]
  exact nfkc_expandPresentationForms [] t

/-- A character the digit map changes is a Persian or Arabic-Indic digit, and becomes an ASCII one. -/
theorem foldDigit_cases (c : Char) : foldDigit c = c ∨ ((foldDigit c).toNat ≤ 0x39 ∧
    (0x0660 ≤ c.toNat ∧ c.toNat ≤ 0x0669 ∨ 0x06f0 ≤ c.toNat ∧ c.toNat ≤ 0x06f9)) := by
  have hascii : ∀ k ≤ 9, (Char.ofNat (0x30 + k)).toNat ≤ 0x39 := by decide
  rw [foldDigit]
  split
  · rename_i h
    exact .inr ⟨hascii _ (by omega), .inr h⟩
  · split
    · rename_i h
      exact .inr ⟨hascii _ (by omega), .inl h⟩
    · exact .inl rfl

theorem foldDigit_eq_zwnj : foldDigit c = zwnj ↔ c = zwnj := by
  obtain h | ⟨hsmall, hdigit⟩ := foldDigit_cases c
  · rw [h]
  · constructor
    · intro heq
      rw [heq] at hsmall
      exact absurd hsmall (by decide)
    · rintro rfl
      exact absurd hdigit (by decide)

theorem isYeh_foldDigit (c : Char) : isYeh (foldDigit c) = isYeh c := by
  obtain h | ⟨hsmall, hdigit⟩ := foldDigit_cases c
  · rw [h]
  · have hnot : ∀ d : Char, isYeh d = true → ¬ d.toNat ≤ 0x39 ∧
        ¬ (0x0660 ≤ d.toNat ∧ d.toNat ≤ 0x0669 ∨ 0x06f0 ≤ d.toNat ∧ d.toNat ≤ 0x06f9) := by
      intro d hd
      rw [isYeh, Bool.or_eq_true, decide_eq_true_eq, decide_eq_true_eq] at hd
      obtain rfl | rfl := hd <;> decide
    have hbefore : isYeh c = false := Bool.eq_false_iff.mpr fun hyeh => (hnot c hyeh).2 hdigit
    have hafter : isYeh (foldDigit c) = false := Bool.eq_false_iff.mpr fun hyeh => (hnot _ hyeh).1 hsmall
    rw [hbefore, hafter]

theorem translateChar_eq (c : Char) : translateChar c = foldDigit (foldLetter c) := by
  by_cases hy : c = arabicYeh
  · subst hy
    rfl
  · by_cases hk : c = arabicKaf
    · subst hk
      rfl
    · rw [translateChar, if_neg (by tauto), foldLetter, if_neg hy, if_neg hk]

theorem dropZwnj_map_foldDigit (t : List Char) : dropZwnj (t.map foldDigit) = (dropZwnj t).map foldDigit := by
  rw [dropZwnj, List.filter_map]
  refine congrArg (List.map foldDigit) (List.filter_congr fun c _ => decide_eq_decide.mpr ?_)
  exact not_congr foldDigit_eq_zwnj

/-- **The normal form** depends on NFKC of the text up to ي, ك and ZWNJ. -/
theorem normalizeForMatching_eq (t : List Char) : normalizeForMatching U L t =
    L.lower (strip (collapseSpaces ((letterFolded (U.nfkc (composed U t))).map foldDigit))) := by
  rw [normalizeForMatching, nfkc_composed, letterFolded, ← dropZwnj_map_foldDigit, List.map_map]
  refine congrArg (fun t => L.lower (strip (collapseSpaces (dropZwnj t)))) (List.map_congr_left ?_)
  exact fun c _ => translateChar_eq c

/-! ## What keeps the two letters -/

theorem isYeh_of_space (h : isPySpace c = true) : isYeh c = false := by
  refine Bool.eq_false_iff.mpr fun hyeh => ?_
  rw [isYeh, Bool.or_eq_true, decide_eq_true_eq, decide_eq_true_eq] at hyeh
  obtain rfl | rfl := hyeh <;> exact absurd h (by decide)

theorem filter_isYeh_dropWhile (t : List Char) : (t.dropWhile isPySpace).filter isYeh = t.filter isYeh := by
  induction t with
  | nil => rfl
  | cons c t ih =>
    cases hc : isPySpace c with
    | true => rw [List.dropWhile_cons_of_pos hc, ih, List.filter_cons_of_neg (by simp [isYeh_of_space hc])]
    | false => rw [List.dropWhile_cons_of_neg (by simp [hc])]

theorem filter_isYeh_strip (t : List Char) : (strip t).filter isYeh = t.filter isYeh := by
  rw [strip, rstrip, List.filter_reverse, filter_isYeh_dropWhile, ← List.filter_reverse, List.reverse_reverse,
    lstrip, filter_isYeh_dropWhile]

theorem filter_isYeh_collapseSpaces (t : List Char) : (collapseSpaces t).filter isYeh = t.filter isYeh := by
  induction t with
  | nil => rfl
  | cons c t ih =>
    rw [collapseSpaces]
    split
    · rename_i hc
      have hnot : ¬ isYeh c = true := by simp [isYeh_of_space hc]
      rw [List.filter_cons_of_neg hnot]
      split
      · exact ih
      · rw [List.filter_cons_of_neg (by decide), ih]
    · rw [List.filter_cons, List.filter_cons, ih]

theorem filter_isYeh_map_foldDigit (t : List Char) : (t.map foldDigit).filter isYeh = t.filter isYeh := by
  induction t with
  | nil => rfl
  | cons c t ih =>
    rw [List.map_cons, List.filter_cons, List.filter_cons, isYeh_foldDigit, ih]
    split
    · rename_i hyeh
      obtain h | ⟨hsmall, -⟩ := foldDigit_cases c
      · rw [h]
      · rw [← isYeh_foldDigit, isYeh, Bool.or_eq_true, decide_eq_true_eq, decide_eq_true_eq] at hyeh
        obtain heq | heq := hyeh <;> · rw [heq] at hsmall; exact absurd hsmall (by decide)
    · rfl

/-- **A normal form has the two letters** NFKC of the text has. -/
theorem filter_isYeh_normalizeForMatching (t : List Char) : (normalizeForMatching U L t).filter isYeh =
    (letterFolded (U.nfkc (composed U t))).filter isYeh := by
  rw [normalizeForMatching_eq, L.keepsYeh, filter_isYeh_strip, filter_isYeh_collapseSpaces,
    filter_isYeh_map_foldDigit]

/-! ## Texts that differ in these letters only -/

/-- Two characters the key does not tell apart once ي and ك are folded. -/
def YehAlike (c d : Char) : Prop := c = d ∨ (isYeh c = true ∧ isYeh d = true)

theorem letterFolded_append (s t : List Char) : letterFolded (s ++ t) = letterFolded s ++ letterFolded t := by
  rw [letterFolded, List.map_append, dropZwnj, List.filter_append]
  rfl

theorem letterFolded_yeh_cons (h : isYeh c = true) (t : List Char) :
    letterFolded (c :: t) = c :: letterFolded t := by
  rw [isYeh, Bool.or_eq_true, decide_eq_true_eq, decide_eq_true_eq] at h
  obtain rfl | rfl := h <;> rfl

/-- The two letters of NFKC of a text, around one of them. -/
theorem filter_isYeh_nfkc (hc : isYeh c = true) (x t : List Char) :
    (letterFolded (U.nfkc (x ++ c :: t))).filter isYeh =
      (letterFolded (U.nfkc x)).filter isYeh ++ c :: (letterFolded (U.nfkc t)).filter isYeh := by
  rw [U.nfkc_yeh x c t hc, letterFolded_append, letterFolded_yeh_cons hc, List.filter_append,
    List.filter_cons_of_pos hc]

/-- **NFKC keeps such texts apart**: at the first place where they differ the two letters do. -/
theorem eq_of_nfkc_yeh (h : List.Forall₂ YehAlike s t)
    (hnfkc : (letterFolded (U.nfkc (x ++ s))).filter isYeh = (letterFolded (U.nfkc (x ++ t))).filter isYeh) :
    s = t := by
  induction h generalizing x with
  | nil => rfl
  | @cons c d s t hcd hrest ih =>
    obtain rfl | ⟨hc, hd⟩ := hcd
    · rw [ih (x := x ++ [c]) (by simpa using hnfkc)]
    · rw [filter_isYeh_nfkc hc, filter_isYeh_nfkc hd] at hnfkc
      obtain ⟨rfl, -⟩ := List.cons_eq_cons.mp (List.append_cancel_left hnfkc)
      rw [ih (x := x ++ [c]) (by simp [filter_isYeh_nfkc hc, hnfkc])]

/-! ## What one key says -/

theorem foldLetterForm_eq (c : Char) :
    foldLetterForm c = if foldLetter c = alefMaksura then persianYeh else foldLetter c := by
  by_cases hy : c = arabicYeh
  · subst hy
    rfl
  · by_cases hm : c = alefMaksura
    · subst hm
      rfl
    · by_cases hk : c = arabicKaf
      · subst hk
        rfl
      · rw [foldLetterForm, foldLetter, if_neg (by tauto), if_neg hy, if_neg hk, if_neg hm]

theorem foldLetter_eq_alefMaksura : foldLetter c = alefMaksura ↔ c = alefMaksura := by
  rw [foldLetter]
  split
  · rename_i h
    subst h
    decide
  · split
    · rename_i h
      subst h
      decide
    · exact Iff.rfl

theorem foldLetter_eq_zwnj : foldLetter c = zwnj ↔ c = zwnj := by
  rw [foldLetter]
  split
  · rename_i h
    subst h
    decide
  · split
    · rename_i h
      subst h
      decide
    · exact Iff.rfl

theorem foldLetterForm_eq_zwnj : foldLetterForm c = zwnj ↔ c = zwnj := by
  rw [foldLetterForm_eq]
  split
  · rename_i h
    rw [foldLetter_eq_alefMaksura] at h
    subst h
    decide
  · exact foldLetter_eq_zwnj

/-- A map that makes and takes no ZWNJ may come after they are dropped. -/
theorem dropZwnj_map {f : Char → Char} (hf : ∀ c, f c = zwnj ↔ c = zwnj) (t : List Char) :
    dropZwnj (t.map f) = (dropZwnj t).map f := by
  rw [dropZwnj, List.filter_map]
  exact congrArg (List.map f) (List.filter_congr fun c _ => decide_eq_decide.mpr (not_congr (hf c)))

/-- Two characters of one key are one letter, or two of the letters a normal form keeps apart. -/
theorem yehAlike_of_foldLetterForm (h : foldLetterForm c = foldLetterForm d) :
    YehAlike (foldLetter c) (foldLetter d) := by
  have hyeh : ∀ e, isYeh (foldLetter e) = true ↔ foldLetterForm e = persianYeh := by
    intro e
    rw [foldLetterForm_eq, isYeh, Bool.or_eq_true, decide_eq_true_eq, decide_eq_true_eq]
    split <;> simp_all
  by_cases hc : foldLetterForm c = persianYeh
  · exact .inr ⟨(hyeh c).mpr hc, (hyeh d).mpr (h ▸ hc)⟩
  · refine .inl ?_
    have hplain : ∀ e, foldLetterForm e ≠ persianYeh → foldLetterForm e = foldLetter e := by
      intro e he
      rw [foldLetterForm_eq] at he ⊢
      split
      · rename_i hm
        exact absurd (if_pos hm) he
      · rfl
    rw [← hplain c hc, ← hplain d (h ▸ hc), h]

/-- **One key**: the folded texts are the same up to the letters a normal form keeps apart. -/
theorem yehAlike_of_letterFormKey (h : letterFormKey U a = letterFormKey U b) :
    List.Forall₂ YehAlike (letterFolded (composed U a)) (letterFolded (composed U b)) := by
  rw [letterFormKey, letterFormKey, dropZwnj_map (f := foldLetterForm) fun _ => foldLetterForm_eq_zwnj,
    dropZwnj_map (f := foldLetterForm) fun _ => foldLetterForm_eq_zwnj, ← List.forall₂_eq_eq_eq, List.forall₂_map_left_iff,
    List.forall₂_map_right_iff] at h
  rw [letterFolded, letterFolded, dropZwnj_map (f := foldLetter) fun _ => foldLetter_eq_zwnj,
    dropZwnj_map (f := foldLetter) fun _ => foldLetter_eq_zwnj, List.forall₂_map_left_iff, List.forall₂_map_right_iff]
  exact h.imp fun _ _ => yehAlike_of_foldLetterForm

/-- Folded texts of one key are the same exactly when the alef maksuras stand at the same places. -/
theorem letterFolded_eq_iff (h : letterFormKey U a = letterFormKey U b) :
    letterFolded (composed U a) = letterFolded (composed U b) ↔ SameMaksuras U a b := by
  rw [letterFormKey, letterFormKey, dropZwnj_map (f := foldLetterForm) fun _ => foldLetterForm_eq_zwnj,
    dropZwnj_map (f := foldLetterForm) fun _ => foldLetterForm_eq_zwnj] at h
  rw [letterFolded, letterFolded, dropZwnj_map (f := foldLetter) fun _ => foldLetter_eq_zwnj,
    dropZwnj_map (f := foldLetter) fun _ => foldLetter_eq_zwnj, SameMaksuras]
  generalize dropZwnj (composed U a) = p at h ⊢
  generalize dropZwnj (composed U b) = q at h ⊢
  induction p generalizing q with
  | nil =>
    obtain rfl := List.map_eq_nil_iff.mp h.symm
    exact ⟨fun _ => rfl, fun _ => rfl⟩
  | cons c p ih =>
    cases q with
    | nil => cases h
    | cons d q =>
      obtain ⟨hhead, htail⟩ := List.cons_eq_cons.mp h
      rw [List.map_cons, List.map_cons, List.map_cons, List.map_cons, List.cons_eq_cons, List.cons_eq_cons,
        ih q htail]
      refine and_congr_left fun _ => ?_
      rw [foldLetterForm_eq, foldLetterForm_eq] at hhead
      have hc := foldLetter_eq_alefMaksura (c := c)
      have hd := foldLetter_eq_alefMaksura (c := d)
      constructor
      · intro heq
        rw [heq] at hc
        rw [Bool.eq_iff_iff, beq_iff_eq, beq_iff_eq, ← hc, hd]
      · intro hsame
        rw [Bool.eq_iff_iff, beq_iff_eq, beq_iff_eq, ← hc, ← hd] at hsame
        by_cases hm : foldLetter c = alefMaksura
        · rw [hm, hsame.mp hm]
        · rwa [if_neg hm, if_neg fun h => hm (hsame.mpr h)] at hhead

/-! ## How fine the key is -/

theorem keyFiner_of_kept (h : LetterFormsKept U a b) : KeyFiner U L a b := by
  intro hkey
  obtain ⟨hmaksura, ha, hb⟩ := h hkey
  rw [normalizeForMatching_eq, normalizeForMatching_eq, ha, hb, (letterFolded_eq_iff hkey).mpr hmaksura]

/-- **How fine the key is**: fine enough wherever it hides no alef maksura and NFKC does with both texts what
it does with them folded; and of texts NFKC treats so, only there. -/
theorem keyFiner_iff (U : UnicodeForms) (L : LowerCase) (a b : List Char) :
    (LetterFormsKept U a b → KeyFiner U L a b) ∧
      (FoldsAlike U a → FoldsAlike U b → (KeyFiner U L a b ↔ LetterFormsKept U a b)) := by
  refine ⟨keyFiner_of_kept, fun ha hb => ⟨fun hfiner hkey => ⟨?_, ha, hb⟩, keyFiner_of_kept⟩⟩
  have hyeh := congrArg (List.filter isYeh) (hfiner hkey)
  rw [filter_isYeh_normalizeForMatching, filter_isYeh_normalizeForMatching, ha, hb] at hyeh
  exact (letterFolded_eq_iff hkey).mp (eq_of_nfkc_yeh (x := []) (yehAlike_of_letterFormKey hkey) hyeh)

/-- NFC and NFKC on texts that are their own normal forms. -/
def plainForms : UnicodeForms where
  nfc := id
  nfkc := id
  nfkc_nfc _ := rfl
  nfkc_part _ _ _ := rfl
  nfkc_yeh _ _ _ _ := rfl

/-- `str.lower` on texts without case. -/
def caseless : LowerCase where
  lower := id
  keepsYeh _ := rfl

/-- علي and علی, with a ZWNJ in one of them: one key and one normal form. -/
theorem keyFiner_yeh : KeyFiner plainForms caseless ['ع', 'ل', arabicYeh, zwnj] ['ع', 'ل', persianYeh] :=
  ((keyFiner_iff plainForms caseless ['ع', 'ل', arabicYeh, zwnj] ['ع', 'ل', persianYeh]).2
    rfl rfl).mpr fun _ => ⟨rfl, rfl, rfl⟩

/-- **ى and ی**: one key, two normal forms. -/
theorem alefMaksura_hidden : ¬ KeyFiner plainForms caseless [alefMaksura] [persianYeh] := by
  unfold KeyFiner
  decide

end LocalSqlAgent
