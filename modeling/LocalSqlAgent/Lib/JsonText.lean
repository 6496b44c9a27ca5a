import LocalSqlAgent.Lib.JsonDecoder

/-! # JSON texts

The grammar of JSON with its white space, and what the decoder makes of its strings, numbers and constants.

* **`ValueText`**: a text of a value, with any white space between its tokens and any choice of escapes.
* **`FitsAt`**: the values the interpreter's bounds leave room for.
* **`Scans`**: a scanner reads a value off a text, whatever follows, and nothing but a shorter number off a
  text that is cut off.
* **`scans_scalar`**: so it is for every value that is no list and no dictionary. -/

namespace LocalSqlAgent

universe u

/-! ## The grammar -/

/-- White space. -/
def AllSpace (w : List Char) : Prop := ∀ c ∈ w, isJsonSpace c = true

/-- What stands between the quotes of a string. -/
inductive StringText : List ℕ → List Char → Prop
  | nil : StringText [] []
  | plain {c : Char} {us : List ℕ} {t : List Char} : 32 ≤ c.toNat → c ≠ '"' → c ≠ '\\' →
      StringText us t → StringText (c.toNat :: us) (c :: t)
  | escape {e : Char} {x : ℕ} {us : List ℕ} {t : List Char} : backslashTable.lookup e = some x →
      StringText us t → StringText (x :: us) ('\\' :: e :: t)
  | unit {a b c d : Char} {x : ℕ} {us : List ℕ} {t : List Char} : hexUnit a b c d = some x →
      StringText us t → StringText (x :: us) ('\\' :: 'u' :: a :: b :: c :: d :: t)

/-- One digit or more. -/
def DigitsText (t : List Char) : Prop := t ≠ [] ∧ ∀ c ∈ t, isDecimalDigit c = true

/-- A natural number without leading zeros. -/
def UnsignedText (t : List Char) : Prop := t = ['0'] ∨ (DigitsText t ∧ t.head? ≠ some '0')

/-- The integer part of a number. -/
def IntegerText (t : List Char) : Prop := UnsignedText t ∨ ∃ u, t = '-' :: u ∧ UnsignedText u

/-- A fraction or nothing. -/
def FractionText (t : List Char) : Prop := t = [] ∨ ∃ ds, t = '.' :: ds ∧ DigitsText ds

/-- The sign of an exponent or nothing. -/
def SignText (t : List Char) : Prop := t = [] ∨ t = ['+'] ∨ t = ['-']

/-- An exponent or nothing. -/
def ExponentText (t : List Char) : Prop :=
  t = [] ∨ ∃ e sign ds, t = e :: (sign ++ ds) ∧ (e = 'e' ∨ e = 'E') ∧ SignText sign ∧ DigitsText ds

/-- A fraction and an exponent. -/
def TailText (t : List Char) : Prop := ∃ f x, FractionText f ∧ ExponentText x ∧ t = f ++ x

/-- A value that is no list and no dictionary. -/
inductive ScalarText : JsonValue → List Char → Prop
  | null : ScalarText .null "null".toList
  | true : ScalarText (.bool true) "true".toList
  | false : ScalarText (.bool false) "false".toList
  | number {i x : List Char} : IntegerText i → TailText x → ScalarText (.number i x) (i ++ x)
  | str {us : List ℕ} {t : List Char} : StringText us t → ScalarText (.str us) ('"' :: (t ++ ['"']))

/-- Items with commas between them and the closing bracket after them. -/
inductive ItemsText {α : Type u} (close : Char) (item : α → List Char → Prop) : List α → List Char → Prop
  | last {a : α} {t w : List Char} : item a t → AllSpace w → ItemsText close item [a] (t ++ (w ++ [close]))
  | cons {a : α} {as : List α} {t w w' u : List Char} : item a t → AllSpace w → AllSpace w' →
      ItemsText close item as u → ItemsText close item (a :: as) (t ++ (w ++ ',' :: (w' ++ u)))

/-- What follows an opening bracket, up to the closing one. -/
inductive GroupText {α : Type u} (close : Char) (item : α → List Char → Prop) : List α → List Char → Prop
  | empty {w : List Char} : AllSpace w → GroupText close item [] (w ++ [close])
  | items {as : List α} {w u : List Char} : AllSpace w → ItemsText close item as u →
      GroupText close item as (w ++ u)

/-- A member of a dictionary. -/
inductive MemberText (value : JsonValue → List Char → Prop) : List ℕ × JsonValue → List Char → Prop
  | mk {name : List ℕ} {v : JsonValue} {s w w' u : List Char} : StringText name s → AllSpace w → AllSpace w' →
      value v u → MemberText value (name, v) ('"' :: (s ++ '"' :: (w ++ ':' :: (w' ++ u))))

/-- A value with lists and dictionaries in at most `n` levels. -/
def ValueTextAt : ℕ → JsonValue → List Char → Prop
  | 0, v, t => ScalarText v t
  | n + 1, v, t =>
    ScalarText v t ∨
      (∃ items u, v = .arr items ∧ t = '[' :: u ∧ GroupText ']' (ValueTextAt n) items u) ∨
      ∃ members u, v = .obj members ∧ t = '{' :: u ∧ GroupText '}' (MemberText (ValueTextAt n)) members u

/-- **A JSON text of a value**, without white space around it. -/
def ValueText (v : JsonValue) (t : List Char) : Prop := ∃ n, ValueTextAt n v t

/-- **A value within the interpreter's bounds**: its lists and dictionaries in at most so many levels, and no
integer that `int` refuses. -/
def FitsAt (L : DecodeLimits) : ℕ → JsonValue → Prop
  | 0, .arr _ => False
  | 0, .obj _ => False
  | n + 1, .arr items => ∀ v ∈ items, FitsAt L n v
  | n + 1, .obj members => ∀ m ∈ members, FitsAt L n m.2
  | _, .number i x => L.refuses i x = false
  | _, .null => True
  | _, .bool _ => True
  | _, .str _ => True

/-! ## Some texts -/

/-- Characters that need no escape. -/
theorem stringText_plain {t : List Char} (h : (t.all fun c => decide (32 ≤ c.toNat ∧ c ≠ '"' ∧ c ≠ '\\')) = true) :
    StringText (t.map Char.toNat) t := by
  induction t with
  | nil => exact .nil
  | cons c t ih =>
    rw [List.all_cons, Bool.and_eq_true, decide_eq_true_iff] at h
    exact .plain h.1.1 h.1.2.1 h.1.2.2 (ih h.2)

/-- A dictionary of one member, without white space. -/
theorem valueText_member {n : ℕ} {name : List ℕ} {v : JsonValue} {s u : List Char} (hs : StringText name s)
    (hv : ValueTextAt n v u) :
    ValueTextAt (n + 1) (.obj [(name, v)]) ('{' :: '"' :: (s ++ '"' :: ':' :: (u ++ ['}']))) := by
  have hspace : AllSpace ([] : List Char) := List.forall_mem_nil _
  have hmember : MemberText (ValueTextAt n) (name, v) ('"' :: (s ++ '"' :: ([] ++ ':' :: ([] ++ u)))) :=
    .mk hs hspace hspace hv
  have hitems : ItemsText '}' (MemberText (ValueTextAt n)) [(name, v)] _ := .last hmember hspace
  have hgroup := GroupText.items hspace hitems
  refine .inr (.inr ⟨_, _, rfl, rfl, ?_⟩)
  simpa using hgroup

/-- A list of one item. -/
theorem valueText_item {n : ℕ} {v : JsonValue} {u : List Char} (hv : ValueTextAt n v u) :
    ValueTextAt (n + 1) (.arr [v]) ('[' :: (u ++ [']'])) := by
  have hspace : AllSpace ([] : List Char) := List.forall_mem_nil _
  have hitems : ItemsText ']' (ValueTextAt n) [v] (u ++ ([] ++ [']'])) := .last hv hspace
  have hgroup := GroupText.items hspace hitems
  exact .inr (.inl ⟨_, _, rfl, rfl, hgroup⟩)

/-! ## Characters and white space -/

/-- A character of a number. -/
def isNumberChar (c : Char) : Bool := isDecimalDigit c || ['-', '+', '.', 'e', 'E'].contains c

theorem isDecimalDigit_of_isNumberChar {c : Char} (h : isNumberChar c = false) : isDecimalDigit c = false :=
  (Bool.or_eq_false_iff.mp h).1

/-- **A text that does not go on with a number.** -/
def NumberEnds (r : List Char) : Prop := ∀ c ∈ r.head?, isNumberChar c = false

theorem skipSpace_append {w : List Char} (h : AllSpace w) (r : List Char) : skipSpace (w ++ r) = skipSpace r :=
  List.dropWhile_append_of_pos h

theorem skipSpace_cons {c : Char} (h : isJsonSpace c = false) (r : List Char) : skipSpace (c :: r) = c :: r :=
  List.dropWhile_cons_of_neg (by rw [h]; exact Bool.false_ne_true)

theorem skipSpace_space {w : List Char} (h : AllSpace w) : skipSpace w = [] := by
  have happend := skipSpace_append h []
  rwa [List.append_nil] at happend

/-- No white space goes on with a number. -/
theorem isNumberChar_of_space {c : Char} (h : isJsonSpace c = true) : isNumberChar c = false := by
  unfold isJsonSpace at h
  simp only [Bool.or_eq_true, decide_eq_true_iff] at h
  obtain ((rfl | rfl) | rfl) | rfl := h <;> decide

theorem numberEnds_append {w r : List Char} (h : AllSpace w) (hr : NumberEnds r) : NumberEnds (w ++ r) := by
  cases w with
  | nil => exact hr
  | cons c w =>
    rintro _ ⟨⟩
    exact isNumberChar_of_space (h c List.mem_cons_self)

theorem numberEnds_cons {c : Char} (h : isNumberChar c = false) (r : List Char) : NumberEnds (c :: r) := by
  rintro _ ⟨⟩
  exact h

theorem numberEnds_nil : NumberEnds [] := by
  rintro _ ⟨⟩

theorem NumberEnds.of_front {p r : List Char} (h : NumberEnds r) (hp : p <+: r) : NumberEnds p := by
  obtain ⟨q, rfl⟩ := hp
  cases p with
  | nil => exact numberEnds_nil
  | cons c p => exact numberEnds_cons (h c rfl) p

/-! ## Strings -/

theorem scanString_quote (rest : List Char) : scanString ('"' :: rest) = some ([], rest) := rfl

theorem scanString_plain {c : Char} (hc : 32 ≤ c.toNat) (hquote : c ≠ '"') (hback : c ≠ '\\')
    (rest : List Char) : scanString (c :: rest) = (scanString rest).map fun r => (c.toNat :: r.1, r.2) := by
  rw [scanString, if_neg (by omega)]
  · exact hquote
  · exact fun _ _ _ _ _ h => absurd h hback
  · exact fun _ _ h => absurd h hback

theorem scanString_escape {e : Char} {x : ℕ} (he : backslashTable.lookup e = some x) (rest : List Char) :
    scanString ('\\' :: e :: rest) = (scanString rest).map fun r => (x :: r.1, r.2) := by
  have hu : e ≠ 'u' := by
    rintro rfl
    exact Option.some_ne_none x (he.symm.trans (by decide))
  rw [scanString, he]
  exact fun _ _ _ _ _ h => absurd h hu

theorem scanString_unit {a b c d : Char} {x : ℕ} (hx : hexUnit a b c d = some x) (rest : List Char) :
    scanString ('\\' :: 'u' :: a :: b :: c :: d :: rest) = (scanString rest).map fun r => (x :: r.1, r.2) := by
  rw [scanString, hx]

/-- **A string is read off its text.** -/
theorem scanString_text {us : List ℕ} {t : List Char} (h : StringText us t) (rest : List Char) :
    scanString (t ++ '"' :: rest) = some (us, rest) := by
  induction h with
  | nil => exact scanString_quote rest
  | plain hc hquote hback _ ih => rw [List.cons_append, scanString_plain hc hquote hback, ih, Option.map_some]
  | escape he _ ih => rw [List.cons_append, List.cons_append, scanString_escape he, ih, Option.map_some]
  | unit hx _ ih =>
    simp only [List.cons_append]
    rw [scanString_unit hx, ih, Option.map_some]

theorem cons_of_front {c : Char} {p t : List Char} (h : p <+: c :: t) (hp : 0 < p.length) :
    ∃ q, p = c :: q ∧ q <+: t :=
  (List.prefix_cons_iff.mp h).resolve_left (List.ne_nil_of_length_pos hp)

/-- An escape that is cut off is none. -/
theorem scanString_cutEscape {p : List Char} (hp : p.length < 4) : scanString ('\\' :: 'u' :: p) = none := by
  rw [scanString, show backslashTable.lookup 'u' = none by decide]
  rintro a b c d rest - rfl
  simp only [List.length_cons] at hp
  omega

/-- **Without its closing quote** a string is none. -/
theorem scanString_cut {us : List ℕ} {t p : List Char} (h : StringText us t) (hp : p <+: t) :
    scanString p = none := by
  have hnil : scanString [] = none := rfl
  induction h generalizing p with
  | nil => rw [List.prefix_nil.mp hp, hnil]
  | plain hc hquote hback _ ih =>
    obtain rfl | ⟨p, rfl, hrest⟩ := List.prefix_cons_iff.mp hp
    · exact hnil
    · rw [scanString_plain hc hquote hback, ih hrest, Option.map_none]
  | escape he _ ih =>
    obtain rfl | ⟨p, rfl, hescape⟩ := List.prefix_cons_iff.mp hp
    · exact hnil
    · obtain rfl | ⟨p, rfl, hrest⟩ := List.prefix_cons_iff.mp hescape
      · decide
      · rw [scanString_escape he, ih hrest, Option.map_none]
  | unit hx _ ih =>
    obtain rfl | ⟨p, rfl, hescape⟩ := List.prefix_cons_iff.mp hp
    · exact hnil
    obtain rfl | ⟨p, rfl, hdigits⟩ := List.prefix_cons_iff.mp hescape
    · decide
    -- four digits and more, or an escape that is cut off
    by_cases hshort : p.length < 4
    · exact scanString_cutEscape hshort
    · obtain ⟨p, rfl, hp₁⟩ := cons_of_front hdigits (by omega)
      obtain ⟨p, rfl, hp₂⟩ := cons_of_front hp₁ (by rw [List.length_cons] at hshort; omega)
      obtain ⟨p, rfl, hp₃⟩ := cons_of_front hp₂ (by simp only [List.length_cons] at hshort; omega)
      obtain ⟨p, rfl, hrest⟩ := cons_of_front hp₃ (by simp only [List.length_cons] at hshort; omega)
      rw [scanString_unit hx, ih hrest, Option.map_none]

/-! ## Numbers -/

/-- A run of digits ends where no digit follows. -/
theorem digitRun_append {ds r : List Char} (hds : ∀ c ∈ ds, isDecimalDigit c = true)
    (hr : ∀ c ∈ r.head?, isDecimalDigit c = false) :
    (ds ++ r).takeWhile isDecimalDigit = ds ∧ (ds ++ r).dropWhile isDecimalDigit = r := by
  rw [List.takeWhile_append_of_pos hds, List.dropWhile_append_of_pos hds]
  cases r with
  | nil => exact ⟨List.append_nil ds, rfl⟩
  | cons c r =>
    have hc := hr c rfl
    rw [List.takeWhile_cons_of_neg (by rw [hc]; exact Bool.false_ne_true), List.append_nil,
      List.dropWhile_cons_of_neg (by rw [hc]; exact Bool.false_ne_true)]
    exact ⟨rfl, rfl⟩

/-- Digits are characters of numbers. -/
theorem digit_of_numberEnds {r : List Char} (h : NumberEnds r) : ∀ c ∈ r.head?, isDecimalDigit c = false := by
  exact fun c hc => isDecimalDigit_of_isNumberChar (h c hc)

theorem scanUnsigned_text {t r : List Char} (h : UnsignedText t) (hr : ∀ c ∈ r.head?, isDecimalDigit c = false) :
    scanUnsigned (t ++ r) = some (t, r) := by
  obtain rfl | ⟨⟨hne, hds⟩, hzero⟩ := h
  · rfl
  · cases t with
    | nil => exact absurd rfl hne
    | cons c t =>
      have hc : c ≠ '0' := fun heq => hzero (congrArg some heq)
      obtain ⟨htake, hdrop⟩ := digitRun_append (fun d hd => hds d (List.mem_cons_of_mem _ hd)) hr
      rw [List.cons_append, scanUnsigned, if_neg hc, if_pos (hds c List.mem_cons_self), htake, hdrop]

/-- An integer part starts with a digit, or with a sign and a digit. -/
theorem UnsignedText.head {t : List Char} (h : UnsignedText t) :
    ∃ c u, t = c :: u ∧ isDecimalDigit c = true := by
  obtain rfl | ⟨⟨hne, hds⟩, -⟩ := h
  · exact ⟨'0', [], rfl, by decide⟩
  · cases t with
    | nil => exact absurd rfl hne
    | cons c t => exact ⟨c, t, rfl, hds c List.mem_cons_self⟩

theorem scanInteger_text {t r : List Char} (h : IntegerText t) (hr : ∀ c ∈ r.head?, isDecimalDigit c = false) :
    scanInteger (t ++ r) = some (t, r) := by
  obtain h | ⟨u, rfl, h⟩ := h
  · obtain ⟨c, u, rfl, hc⟩ := h.head
    have hsign : c ≠ '-' := by
      rintro rfl
      exact absurd hc (by decide)
    rw [List.cons_append, scanInteger]
    · rw [← List.cons_append]
      exact scanUnsigned_text h hr
    · rintro rest heq
      exact hsign (List.head_eq_of_cons_eq heq)
  · rw [List.cons_append, scanInteger, scanUnsigned_text h hr, Option.map_some]

theorem scanFraction_text {f r : List Char} (h : FractionText f) (hr : ∀ c ∈ r.head?, isDecimalDigit c = false)
    (hdot : ∀ c ∈ r.head?, c ≠ '.') : scanFraction (f ++ r) = (f, r) := by
  obtain rfl | ⟨ds, rfl, hne, hds⟩ := h
  · cases r with
    | nil => rfl
    | cons c r =>
      rw [List.nil_append, scanFraction]
      rintro rest heq
      exact hdot c rfl (List.head_eq_of_cons_eq heq)
  · obtain ⟨htake, hdrop⟩ := digitRun_append hds hr
    rw [List.cons_append, scanFraction, htake, hdrop, if_neg hne]

theorem scanSign_text {sign ds : List Char} (h : SignText sign) (hds : DigitsText ds) (r : List Char) :
    scanSign (sign ++ (ds ++ r)) = (sign, ds ++ r) := by
  obtain rfl | rfl | rfl := h
  · obtain ⟨hne, hds⟩ := hds
    cases ds with
    | nil => exact absurd rfl hne
    | cons c ds =>
      have hc := hds c List.mem_cons_self
      rw [List.nil_append, List.cons_append, scanSign, if_neg]
      rintro (rfl | rfl) <;> exact absurd hc (by decide)
  · rfl
  · rfl

theorem scanExponent_text {x r : List Char} (h : ExponentText x) (hr : NumberEnds r) :
    scanExponent (x ++ r) = (x, r) := by
  obtain rfl | ⟨e, sign, ds, rfl, he, hsign, hds⟩ := h
  · cases r with
    | nil => rfl
    | cons c r =>
      have hc := hr c rfl
      rw [List.nil_append, scanExponent, if_neg]
      rintro ⟨rfl | rfl, -⟩ <;> exact absurd hc (by decide)
  · obtain ⟨htake, hdrop⟩ := digitRun_append hds.2 (digit_of_numberEnds hr)
    rw [List.cons_append, List.append_assoc, scanExponent, scanSign_text hsign hds]
    dsimp only
    rw [htake, hdrop, if_pos ⟨he, hds.1⟩]

/-- **A number is read off its text.** -/
theorem scanNumber_text {i x r : List Char} (hi : IntegerText i) (hx : TailText x) (hr : NumberEnds r) :
    scanNumber (i ++ (x ++ r)) = some (i, x, r) := by
  obtain ⟨f, e, hf, he, rfl⟩ := hx
  have hexponent : ∀ c ∈ (e ++ r).head?, isDecimalDigit c = false ∧ c ≠ '.' := by
    obtain rfl | ⟨c, sign, ds, rfl, hc, -⟩ := he
    · intro c hc
      refine ⟨digit_of_numberEnds hr c hc, ?_⟩
      rintro rfl
      exact absurd (hr '.' hc) (by decide)
    · rintro _ ⟨⟩
      obtain rfl | rfl := hc <;> decide
  have hfraction : ∀ c ∈ (f ++ (e ++ r)).head?, isDecimalDigit c = false := by
    obtain rfl | ⟨ds, rfl, -⟩ := hf
    · exact fun c hc => (hexponent c hc).1
    · rintro _ ⟨⟩
      decide
  rw [List.append_assoc, scanNumber, scanInteger_text hi hfraction, Option.map_some]
  dsimp only
  rw [scanFraction_text hf (fun c hc => (hexponent c hc).1) fun c hc => (hexponent c hc).2]
  dsimp only
  rw [scanExponent_text he hr]

/-! ## What a scanner makes of a text -/

/-- A text that starts with no white space and closes or separates nothing. -/
def Opens (t : List Char) : Prop := ∃ c u, t = c :: u ∧ isJsonSpace c = false ∧ c ∉ [']', '}', ',']

/-- **A scanner reads `a` off the text `t`**: whatever follows the text, as long as it does not go on with a
number, it returns `a` and what follows, or meets a bound of the interpreter when `a` does not fit. A text that
is cut off is an error, but for a number that is shorter. -/
structure Scans {α : Type u} (item : List Char → Decoded α) (fits : Prop) (a : α) (t : List Char) : Prop where
  opens : Opens t
  reads : ∀ rest, NumberEnds rest → fits → item (t ++ rest) = .ok (a, rest)
  refuses : ∀ rest, NumberEnds rest → ¬ fits → ∃ e, e ≠ .syntactic ∧ item (t ++ rest) = .error e
  cuts : ∀ p, p <+: t → p ≠ t →
    (∃ e, item p = .error e) ∨ ∃ a r, item p = .ok (a, r) ∧ ∀ c ∈ r, isNumberChar c = true

/-! ## Scalars -/

section Scalars

variable {L : DecodeLimits}

/-- The constants that are words of JSON. -/
theorem scans_constant {v : JsonValue} {t : List Char} (ht : t ∈ ["null".toList, "true".toList, "false".toList])
    (hopens : Opens t) (hreads : ∀ rest, scanScalar L (t ++ rest) = .ok (v, rest)) :
    Scans (scanScalar L) True v t where
  opens := hopens
  reads rest _ _ := hreads rest
  refuses _ _ hfits := absurd trivial hfits
  cuts p hp hne := by
    have hcut : ∀ t ∈ ["null".toList, "true".toList, "false".toList], t.length < 6 ∧
        ∀ n < 6, t.take n ≠ t → (t.take n).head? ≠ some '"' ∧ (scanConstant (t.take n)).isNone = true ∧
          (scanNumber (t.take n)).isNone = true := by decide
    obtain ⟨hlength, hcut⟩ := hcut t ht
    have htake := List.prefix_iff_eq_take.mp hp
    obtain ⟨hquote, hconstant, hnumber⟩ := hcut p.length (lt_of_le_of_lt hp.length_le hlength) (htake ▸ hne)
    rw [← htake] at hquote hconstant hnumber
    refine .inl ⟨.syntactic, ?_⟩
    rw [scanScalar, Option.isNone_iff_eq_none.mp hconstant]
    · show decodeNumber L p = _
      rw [decodeNumber, Option.isNone_iff_eq_none.mp hnumber]
    · rintro rest rfl
      exact hquote rfl

theorem scanConstant_eq_none {cs : List Char} (h : ∀ k ∈ jsonConstants, ¬ k.1.isPrefixOf cs = true) :
    scanConstant cs = none :=
  Option.map_eq_none_iff.mpr (List.find?_eq_none.mpr h)

/-- Every constant has a character that no number has. -/
theorem scanConstant_number {cs : List Char} (h : ∀ c ∈ cs, isNumberChar c = true) : scanConstant cs = none := by
  have hconstants : (jsonConstants.all fun k => k.1.any fun c => !isNumberChar c) = true := by decide
  refine scanConstant_eq_none fun k hk hpre => ?_
  obtain ⟨c, hc, hother⟩ := List.any_eq_true.mp (List.all_eq_true.mp hconstants k hk)
  have hnumber : isNumberChar c = false := Bool.not_eq_true' _ |>.mp hother
  exact Bool.false_ne_true (hnumber.symm.trans (h c ((List.isPrefixOf_iff_prefix.mp hpre).subset hc)))

theorem scanUnsigned_suffix {cs i r : List Char} (h : scanUnsigned cs = some (i, r)) : r <:+ cs := by
  cases cs with
  | nil => cases h
  | cons c cs =>
    rw [scanUnsigned] at h
    split at h
    · cases h
      exact List.suffix_cons _ _
    · split at h
      · cases h
        exact (List.dropWhile_suffix _).trans (List.suffix_cons _ _)
      · cases h

theorem scanInteger_suffix {cs i r : List Char} (h : scanInteger cs = some (i, r)) : r <:+ cs := by
  unfold scanInteger at h
  split at h
  · obtain ⟨⟨i', r'⟩, hrest, heq⟩ := Option.map_eq_some_iff.mp h
    cases heq
    exact (scanUnsigned_suffix hrest).trans (List.suffix_cons _ _)
  · exact scanUnsigned_suffix h

theorem scanFraction_suffix (cs : List Char) : (scanFraction cs).2 <:+ cs := by
  unfold scanFraction
  split
  · split
    · exact List.suffix_rfl
    · exact (List.dropWhile_suffix _).trans (List.suffix_cons _ _)
  · exact List.suffix_rfl

theorem scanSign_suffix (cs : List Char) : (scanSign cs).2 <:+ cs := by
  unfold scanSign
  split
  · split
    · exact List.suffix_cons _ _
    · exact List.suffix_rfl
  · exact List.suffix_rfl

theorem scanExponent_suffix (cs : List Char) : (scanExponent cs).2 <:+ cs := by
  unfold scanExponent
  split
  · dsimp only
    split
    · exact (List.dropWhile_suffix _).trans ((scanSign_suffix _).trans (List.suffix_cons _ _))
    · exact List.suffix_rfl
  · exact List.suffix_rfl

theorem scanNumber_suffix {cs i x r : List Char} (h : scanNumber cs = some (i, x, r)) : r <:+ cs := by
  obtain ⟨⟨i', rest⟩, hinteger, heq⟩ := Option.map_eq_some_iff.mp h
  cases heq
  exact (scanExponent_suffix _).trans ((scanFraction_suffix _).trans (scanInteger_suffix hinteger))

/-- **Of a text of number characters** at most a number is read, and what is left has no others. -/
theorem scanScalar_number {cs : List Char} (h : ∀ c ∈ cs, isNumberChar c = true) :
    (∃ e, scanScalar L cs = .error e) ∨
      ∃ v r, scanScalar L cs = .ok (v, r) ∧ ∀ c ∈ r, isNumberChar c = true := by
  have hscalar : scanScalar L cs = decodeNumber L cs := by
    rw [scanScalar, scanConstant_number h]
    rintro rest rfl
    exact absurd (h '"' List.mem_cons_self) (by decide)
  rw [hscalar, decodeNumber]
  cases hnumber : scanNumber cs with
  | none => exact .inl ⟨_, rfl⟩
  | some r =>
    obtain ⟨i, x, r⟩ := r
    dsimp only
    split
    · exact .inl ⟨_, rfl⟩
    · exact .inr ⟨_, r, rfl, fun c hc => h c ((scanNumber_suffix hnumber).subset hc)⟩

theorem digits_isNumberChar {ds : List Char} (h : DigitsText ds) : ∀ c ∈ ds, isNumberChar c = true :=
  fun c hc => Bool.or_eq_true_iff.mpr (.inl (h.2 c hc))

theorem all_isNumberChar {cs : List Char} (h : cs.all isNumberChar = true) : ∀ c ∈ cs, isNumberChar c = true :=
  List.all_eq_true.mp h

/-- A number has number characters only. -/
theorem number_isNumberChar {i x : List Char} (hi : IntegerText i) (hx : TailText x) :
    ∀ c ∈ i ++ x, isNumberChar c = true := by
  have hunsigned : ∀ t, UnsignedText t → ∀ c ∈ t, isNumberChar c = true := by
    rintro t (rfl | ⟨hds, -⟩)
    · exact all_isNumberChar (by decide)
    · exact digits_isNumberChar hds
  have hfraction : ∀ t, FractionText t → ∀ c ∈ t, isNumberChar c = true := by
    rintro t (rfl | ⟨ds, rfl, hds⟩)
    · exact List.forall_mem_nil _
    · exact List.forall_mem_cons.mpr ⟨by decide, digits_isNumberChar hds⟩
  have hexponent : ∀ t, ExponentText t → ∀ c ∈ t, isNumberChar c = true := by
    rintro t (rfl | ⟨e, sign, ds, rfl, he, hsign, hds⟩)
    · exact List.forall_mem_nil _
    · refine List.forall_mem_cons.mpr ⟨by obtain rfl | rfl := he <;> decide, ?_⟩
      refine List.forall_mem_append.mpr ⟨by obtain rfl | rfl | rfl := hsign <;> exact all_isNumberChar (by decide), ?_⟩
      exact digits_isNumberChar hds
  obtain ⟨f, e, hf, he, rfl⟩ := hx
  refine List.forall_mem_append.mpr ⟨?_, List.forall_mem_append.mpr ⟨hfraction f hf, hexponent e he⟩⟩
  obtain hi | ⟨u, rfl, hu⟩ := hi
  · exact hunsigned i hi
  · exact List.forall_mem_cons.mpr ⟨by decide, hunsigned u hu⟩

/-- The first characters of a number. -/
theorem IntegerText.head {i : List Char} (h : IntegerText i) :
    (∃ c u, i = c :: u ∧ isDecimalDigit c = true) ∨ ∃ c u, i = '-' :: c :: u ∧ isDecimalDigit c = true := by
  obtain h | ⟨u, rfl, h⟩ := h
  · exact .inl h.head
  · obtain ⟨c, u, rfl, hc⟩ := h.head
    exact .inr ⟨c, u, rfl, hc⟩

/-- How a constant starts: with no digit, and with a sign only before no digit. -/
def startsNoNumber : List Char → Bool
  | a :: b :: _ => !isDecimalDigit a && (a != '-' || !isDecimalDigit b)
  | _ => false

/-- No constant starts as a number does. -/
theorem scanConstant_integer {i : List Char} (h : IntegerText i) (rest : List Char) :
    scanConstant (i ++ rest) = none := by
  have hconstants : ∀ k ∈ jsonConstants.map (·.1), startsNoNumber k = true := by decide
  refine scanConstant_eq_none fun k hk hpre => ?_
  have hstarts := hconstants k.1 (List.mem_map_of_mem hk)
  obtain ⟨tail, htail⟩ := List.isPrefixOf_iff_prefix.mp hpre
  unfold startsNoNumber at hstarts
  split at hstarts
  · rename_i a b w heq
    rw [heq] at htail
    obtain ⟨c, u, rfl, hc⟩ | ⟨c, u, rfl, hc⟩ := h.head
    · obtain rfl : a = c := List.head_eq_of_cons_eq htail
      rw [hc] at hstarts
      exact Bool.false_ne_true hstarts
    · obtain rfl : a = '-' := List.head_eq_of_cons_eq htail
      obtain rfl : b = c := List.head_eq_of_cons_eq (List.tail_eq_of_cons_eq htail)
      rw [hc] at hstarts
      exact absurd hstarts (by decide)
  · exact Bool.false_ne_true hstarts

omit L in
theorem opens_digit {c : Char} (hc : isDecimalDigit c = true) (u : List Char) : Opens (c :: u) := by
  refine ⟨c, u, rfl, ?_, fun hclose => ?_⟩
  · cases hspace : isJsonSpace c with
    | false => rfl
    | true => exact hc.symm.trans (isDecimalDigit_of_isNumberChar (isNumberChar_of_space hspace))
  · simp only [List.mem_cons, List.not_mem_nil, or_false] at hclose
    obtain rfl | rfl | rfl := hclose <;> exact absurd hc (by decide)

/-- **A value that is no list and no dictionary.** -/
theorem scans_scalar {d : ℕ} {v : JsonValue} {t : List Char} (h : ScalarText v t) :
    Scans (scanScalar L) (FitsAt L d v) v t := by
  cases h with
  | null =>
    have hfits : FitsAt L d .null = True := by cases d <;> rfl
    rw [hfits]
    exact scans_constant (by decide) ⟨'n', "ull".toList, rfl, by decide, by decide⟩ fun _ => rfl
  | true =>
    have hfits : FitsAt L d (.bool true) = True := by cases d <;> rfl
    rw [hfits]
    exact scans_constant (by decide) ⟨'t', "rue".toList, rfl, by decide, by decide⟩ fun _ => rfl
  | false =>
    have hfits : FitsAt L d (.bool false) = True := by cases d <;> rfl
    rw [hfits]
    exact scans_constant (by decide) ⟨'f', "alse".toList, rfl, by decide, by decide⟩ fun _ => rfl
  | @number i x hi hx =>
    have hfits : FitsAt L d (.number i x) = (L.refuses i x = false) := by cases d <;> rfl
    have hreads : ∀ rest, NumberEnds rest → scanScalar L (i ++ x ++ rest) =
        if L.refuses i x then .error .digits else .ok (.number i x, rest) := by
      intro rest hrest
      rw [List.append_assoc, scanScalar, scanConstant_integer hi]
      · show decodeNumber L _ = _
        rw [decodeNumber, scanNumber_text hi hx hrest]
      · rintro tail heq
        obtain ⟨c, u, rfl, hc⟩ | ⟨c, u, rfl, hc⟩ := hi.head
        · obtain rfl : c = '"' := List.head_eq_of_cons_eq heq
          exact absurd hc (by decide)
        · exact absurd (List.head_eq_of_cons_eq heq) (by decide)
    rw [hfits]
    refine ⟨?_, fun rest hrest hfit => ?_, fun rest hrest hfit => ?_, fun p hp _ => ?_⟩
    · obtain ⟨c, u, rfl, hc⟩ | ⟨c, u, rfl, hc⟩ := hi.head
      · exact opens_digit hc (u ++ x)
      · exact ⟨'-', c :: (u ++ x), rfl, by decide, by decide⟩
    · rw [hreads rest hrest, hfit, if_neg Bool.false_ne_true]
    · rw [hreads rest hrest, eq_true_of_ne_false hfit, if_pos rfl]
      exact ⟨.digits, by decide, rfl⟩
    · exact scanScalar_number fun c hc => number_isNumberChar hi hx c (hp.subset hc)
  | @str us t ht =>
    have hfits : FitsAt L d (.str us) = True := by cases d <;> rfl
    rw [hfits]
    refine ⟨⟨'"', t ++ ['"'], rfl, by decide, by decide⟩, fun rest _ _ => ?_,
      fun _ _ hfit => absurd trivial hfit, fun p hp hne => ?_⟩
    · rw [List.cons_append, List.append_assoc, List.singleton_append, scanScalar, scanString_text ht]
    · refine .inl ⟨.syntactic, ?_⟩
      obtain rfl | ⟨p, rfl, hrest⟩ := List.prefix_cons_iff.mp hp
      · rfl
      · have hcut : p <+: t := by
          obtain heq | hcut := List.prefix_concat_iff.mp hrest
          · exact absurd (congrArg _ heq) hne
          · exact hcut
        rw [scanScalar, scanString_cut ht hcut]

end Scalars

end LocalSqlAgent
