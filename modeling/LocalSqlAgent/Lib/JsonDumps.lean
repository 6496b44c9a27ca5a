import LocalSqlAgent.Lib.JsonCuts
import LocalSqlAgent.Lib.PyJson

/-! # `json.dumps` without `ensure_ascii`

The text of a decoded value with the default separators, as the code points of a Python string: an unpaired
surrogate stands in it as it is.

* **`jsonDumpsText`**: the text; **`textPoints`**: the code points of the strings in a value.
* **`charsOf`**: the characters of a text, when UTF-8 has all of them.
* **`jsonDumpsText_text`**: without surrogates the text is a JSON text of the value, on one line. -/

namespace LocalSqlAgent

universe u

/-! ## Texts -/

/-- A code point UTF-8 does not encode. -/
def IsSurrogate (n : ℕ) : Prop := 0xD800 ≤ n ∧ n ≤ 0xDFFF

instance : DecidablePred IsSurrogate := fun _ => inferInstanceAs (Decidable (_ ∧ _))

/-- **The characters of a text**, none when it holds a surrogate. -/
def charsOf : List ℕ → Option (List Char)
  | [] => some []
  | n :: ns => if n.isValidChar then (charsOf ns).map fun cs => Char.ofNat n :: cs else none

theorem charsOf_map_toNat (cs : List Char) : charsOf (cs.map Char.toNat) = some cs := by
  induction cs with
  | nil => rfl
  | cons c cs ih =>
    have hvalid : c.toNat.isValidChar := c.valid
    rw [List.map_cons, charsOf, if_pos hvalid, ih, Option.map_some, Char.ofNat_toNat]

theorem toNat_ofNat {n : ℕ} (h : n.isValidChar) : (Char.ofNat n).toNat = n := by
  unfold Char.ofNat
  rw [dif_pos h]
  rfl

theorem isValidChar_of_not_surrogate {n : ℕ} (hn : n < 0x110000) (h : ¬ IsSurrogate n) : n.isValidChar := by
  unfold IsSurrogate at h
  unfold Nat.isValidChar
  omega

/-- A surrogate in the text. -/
theorem charsOf_surrogate {n : ℕ} {ns : List ℕ} (hn : n ∈ ns) (h : IsSurrogate n) : charsOf ns = none := by
  induction ns with
  | nil => cases hn
  | cons k ns ih =>
    obtain rfl | hn := List.mem_cons.mp hn
    · refine if_neg fun hvalid => ?_
      unfold IsSurrogate at h
      unfold Nat.isValidChar at hvalid
      omega
    · rw [charsOf, ih hn]
      exact ite_self none

theorem length_charsOf {ns : List ℕ} {cs : List Char} (h : charsOf ns = some cs) : cs.length = ns.length := by
  induction ns generalizing cs with
  | nil =>
    cases h
    rfl
  | cons n ns ih =>
    rw [charsOf] at h
    split at h
    · obtain ⟨ds, hds, rfl⟩ := Option.map_eq_some_iff.mp h
      rw [List.length_cons, List.length_cons, ih hds]
    · cases h

/-! ## `json.dumps` -/

/-- One code point of a string: its escape, or itself. -/
def escapePoint (n : ℕ) : List ℕ :=
  match escapeDict.find? fun e => e.1.toNat = n with
  | some e => ['\\'.toNat, e.2.toNat]
  | none => if n < 32 then (unitEscape n).map Char.toNat else [n]

/-- A string between its quotes. -/
def dumpsString (us : List ℕ) : List ℕ := '"'.toNat :: (us.flatMap escapePoint ++ ['"'.toNat])

mutual

/-- **`json.dumps(value, ensure_ascii=False)`**. -/
def jsonDumpsText : JsonValue → List ℕ
  | .null => "null".toList.map Char.toNat
  | .bool true => "true".toList.map Char.toNat
  | .bool false => "false".toList.map Char.toNat
  | .number i x => (i ++ x).map Char.toNat
  | .str us => dumpsString us
  | .arr items => '['.toNat :: dumpsItems items
  | .obj members => '\x7b'.toNat :: dumpsMembers members

/-- The items of a list and its closing bracket. -/
def dumpsItems : List JsonValue → List ℕ
  | [] => [']'.toNat]
  | v :: rest => jsonDumpsText v ++ dumpsMoreItems rest

/-- The items after the first one. -/
def dumpsMoreItems : List JsonValue → List ℕ
  | [] => [']'.toNat]
  | v :: rest => ','.toNat :: ' '.toNat :: (jsonDumpsText v ++ dumpsMoreItems rest)

/-- The members of a dictionary and its closing bracket. -/
def dumpsMembers : List (List ℕ × JsonValue) → List ℕ
  | [] => ['\x7d'.toNat]
  | (name, v) :: rest =>
    (dumpsString name ++ ':'.toNat :: ' '.toNat :: jsonDumpsText v) ++ dumpsMoreMembers rest

/-- The members after the first one. -/
def dumpsMoreMembers : List (List ℕ × JsonValue) → List ℕ
  | [] => ['\x7d'.toNat]
  | (name, v) :: rest => ','.toNat :: ' '.toNat ::
    ((dumpsString name ++ ':'.toNat :: ' '.toNat :: jsonDumpsText v) ++ dumpsMoreMembers rest)

end

mutual

/-- **The code points of the strings and names** in a value. -/
def textPoints : JsonValue → List ℕ
  | .str us => us
  | .arr items => textPointsItems items
  | .obj members => textPointsMembers members
  | .null => []
  | .bool _ => []
  | .number _ _ => []

/-- Those of the items of a list. -/
def textPointsItems : List JsonValue → List ℕ
  | [] => []
  | v :: rest => textPoints v ++ textPointsItems rest

/-- Those of the members of a dictionary. -/
def textPointsMembers : List (List ℕ × JsonValue) → List ℕ
  | [] => []
  | (name, v) :: rest => name ++ textPoints v ++ textPointsMembers rest

end

/-- **A value that `json.dumps` writes and the interpreter's bounds leave room for**: its numbers are the
`repr` of an integer or of a finite float. -/
def WrittenAt (L : DecodeLimits) : ℕ → JsonValue → Prop
  | 0, .arr _ => False
  | 0, .obj _ => False
  | n + 1, .arr items => ∀ v ∈ items, WrittenAt L n v
  | n + 1, .obj members => ∀ m ∈ members, WrittenAt L n m.2
  | _, .number i x => IntegerText i ∧ TailText x ∧ ∀ bound ∈ L.digits, digitCount i ≤ bound
  | _, .null => True
  | _, .bool _ => True
  | _, .str _ => True

theorem WrittenAt.boundedAt {L : DecodeLimits} {n : ℕ} {v : JsonValue} (h : WrittenAt L n v) : BoundedAt L n v := by
  induction n generalizing v with
  | zero =>
    cases v with
    | number i x => exact h.2.2
    | arr _ => exact h
    | obj _ => exact h
    | null => trivial
    | bool _ => trivial
    | str _ => trivial
  | succ n ih =>
    cases v with
    | number i x => exact h.2.2
    | arr items => exact fun v hv => ih (h v hv)
    | obj members => exact fun m hm => ih (h m hm)
    | null => trivial
    | bool _ => trivial
    | str _ => trivial

/-! ## The strings of a value -/

theorem mem_textPointsItems {n : ℕ} {v : JsonValue} {items : List JsonValue} (hv : v ∈ items)
    (hn : n ∈ textPoints v) : n ∈ textPointsItems items := by
  induction items with
  | nil => cases hv
  | cons w items ih =>
    rw [textPointsItems]
    obtain rfl | hv := List.mem_cons.mp hv
    · exact List.mem_append_left _ hn
    · exact List.mem_append_right _ (ih hv)

theorem mem_textPointsMembers {n : ℕ} {m : List ℕ × JsonValue} {members : List (List ℕ × JsonValue)}
    (hm : m ∈ members) (hn : n ∈ m.1 ∨ n ∈ textPoints m.2) : n ∈ textPointsMembers members := by
  induction members with
  | nil => cases hm
  | cons w members ih =>
    rw [textPointsMembers]
    obtain rfl | hm := List.mem_cons.mp hm
    · exact List.mem_append_left _ (List.mem_append.mpr hn)
    · exact List.mem_append_right _ (ih hm)

/-! ## A JSON text -/

/-- A text of printable characters and spaces: it stays on its line. -/
def OneLine (t : List Char) : Prop := ∀ c ∈ t, 32 ≤ c.toNat

/-- **A string's code points** are the text between its quotes. -/
theorem dumpsString_text {us : List ℕ} (h : ∀ n ∈ us, n.isValidChar) :
    ∃ t, us.flatMap escapePoint = t.map Char.toNat ∧ StringText us t ∧ OneLine t := by
  have hescapes : ∀ e ∈ escapeDict, backslashTable.lookup e.2 = some e.1.toNat ∧ 32 ≤ e.2.toNat := by decide
  have hunits : ∀ n < 32, hexUnit '0' '0' (Nat.digitChar (n / 16 % 16)) (Nat.digitChar (n % 16)) = some n ∧
      ((unitEscape n).all fun c => decide (32 ≤ c.toNat)) = true := by decide
  induction us with
  | nil => exact ⟨[], rfl, .nil, List.forall_mem_nil _⟩
  | cons n us ih =>
    obtain ⟨t, ht, htext, hline⟩ := ih fun k hk => h k (List.mem_cons_of_mem _ hk)
    have hvalid := h n List.mem_cons_self
    rw [List.flatMap_cons, ht]
    unfold escapePoint
    cases hfind : escapeDict.find? fun e => decide (e.1.toNat = n) with
    | some e =>
      obtain ⟨hlookup, hprintable⟩ := hescapes e (List.mem_of_find?_eq_some hfind)
      have hn : e.1.toNat = n := by
        have hfound := List.find?_some hfind
        exact of_decide_eq_true hfound
      refine ⟨'\\' :: e.2 :: t, rfl, .escape (hn ▸ hlookup) htext, ?_⟩
      exact List.forall_mem_cons.mpr ⟨by decide, List.forall_mem_cons.mpr ⟨hprintable, hline⟩⟩
    | none =>
      dsimp only
      split
      · rename_i hcontrol
        obtain ⟨hunit, hprintable⟩ := hunits n hcontrol
        refine ⟨unitEscape n ++ t, (List.map_append ..).symm, ?_, List.forall_mem_append.mpr ⟨?_, hline⟩⟩
        · have hhigh : unitEscape n =
              ['\\', 'u', '0', '0', Nat.digitChar (n / 16 % 16), Nat.digitChar (n % 16)] := by
            rw [unitEscape, Nat.div_eq_of_lt (by omega : n < 4096), Nat.div_eq_of_lt (by omega : n < 256)]
            rfl
          rw [hhigh]
          exact .unit hunit htext
        · exact fun c hc => of_decide_eq_true (List.all_eq_true.mp hprintable c hc)
      · rename_i hcontrol
        have hnot := List.find?_eq_none.mp hfind
        have hchar := toNat_ofNat hvalid
        have hne : ∀ e ∈ escapeDict, Char.ofNat n ≠ e.1 := fun e he heq =>
          hnot e he (decide_eq_true (by rw [← heq, hchar]))
        refine ⟨Char.ofNat n :: t, by rw [List.map_cons, hchar]; rfl, ?_, ?_⟩
        · have hplain := StringText.plain (c := Char.ofNat n) (by omega) (hne ('"', '"') (by decide))
            (hne ('\\', '\\') (by decide)) htext
          rwa [hchar] at hplain
        · exact List.forall_mem_cons.mpr ⟨by omega, hline⟩

/-- A quoted string. -/
theorem dumpsString_eq {us : List ℕ} {t : List Char} (ht : us.flatMap escapePoint = t.map Char.toNat) :
    dumpsString us = ('"' :: (t ++ ['"'])).map Char.toNat := by
  rw [dumpsString, ht, List.map_cons, List.map_append]
  rfl

theorem oneLine_quoted {t : List Char} (h : OneLine t) : OneLine ('"' :: (t ++ ['"'])) :=
  List.forall_mem_cons.mpr ⟨by decide, List.forall_mem_append.mpr ⟨h, List.forall_mem_singleton.mpr (by decide)⟩⟩

/-- The characters of numbers are printable. -/
theorem printable_of_number {c : Char} (h : isNumberChar c = true) : 32 ≤ c.toNat := by
  by_contra hlt
  unfold isNumberChar isDecimalDigit at h
  rw [Bool.or_eq_true, Bool.and_eq_true, decide_eq_true_iff, decide_eq_true_iff] at h
  obtain ⟨hge, -⟩ | h := h
  · omega
  · simp only [List.contains_cons, List.contains_nil, Bool.or_false, Bool.or_eq_true, beq_iff_eq] at h
    obtain rfl | rfl | rfl | rfl | rfl := h <;> exact absurd hlt (by decide)

/-! ### Groups -/

section Groups

variable {α : Type u} (close : Char) (text : α → List ℕ)

/-- The items after the first one and the closing bracket. -/
def dumpsMore : List α → List ℕ
  | [] => [close.toNat]
  | a :: rest => ','.toNat :: ' '.toNat :: (text a ++ dumpsMore rest)

/-- What follows an opening bracket. -/
def dumpsGroup : List α → List ℕ
  | [] => [close.toNat]
  | a :: rest => text a ++ dumpsMore close text rest

variable {close text} {item : α → List Char → Prop}

theorem dumpsMore_text {a : α} {t : List Char} {as : List α} (ht : item a t) (hline : OneLine t)
    (hclose : 32 ≤ close.toNat) (h : ∀ a ∈ as, ∃ t, text a = t.map Char.toNat ∧ item a t ∧ OneLine t) :
    ∃ u, t.map Char.toNat ++ dumpsMore close text as = u.map Char.toNat ∧ ItemsText close item (a :: as) u ∧
      OneLine u := by
  induction as generalizing a t with
  | nil =>
    refine ⟨t ++ ([] ++ [close]), ?_, .last ht (List.forall_mem_nil _), ?_⟩
    · rw [List.map_append]
      rfl
    · exact List.forall_mem_append.mpr ⟨hline, List.forall_mem_singleton.mpr hclose⟩
  | cons b as ih =>
    obtain ⟨s, hs, hitem, hsline⟩ := h b List.mem_cons_self
    obtain ⟨u, hu, hitems, huline⟩ := ih hitem hsline fun a ha => h a (List.mem_cons_of_mem _ ha)
    refine ⟨t ++ ([] ++ ',' :: ([' '] ++ u)), ?_,
      .cons ht (List.forall_mem_nil _) (List.forall_mem_singleton.mpr (by decide)) hitems, ?_⟩
    · rw [dumpsMore, hs, hu]
      simp only [List.map_append, List.map_cons, List.nil_append, List.cons_append]
    · refine List.forall_mem_append.mpr ⟨hline, List.forall_mem_cons.mpr ⟨by decide, ?_⟩⟩
      exact List.forall_mem_cons.mpr ⟨by decide, huline⟩

/-- **A group** of items that are written as texts of theirs. -/
theorem dumpsGroup_text {as : List α} (hclose : 32 ≤ close.toNat)
    (h : ∀ a ∈ as, ∃ t, text a = t.map Char.toNat ∧ item a t ∧ OneLine t) :
    ∃ u, dumpsGroup close text as = u.map Char.toNat ∧ GroupText close item as u ∧ OneLine u := by
  cases as with
  | nil =>
    exact ⟨[] ++ [close], rfl, .empty (List.forall_mem_nil _), List.forall_mem_singleton.mpr hclose⟩
  | cons a as =>
    obtain ⟨t, ht, hitem, hline⟩ := h a List.mem_cons_self
    obtain ⟨u, hu, hitems, huline⟩ := dumpsMore_text hitem hline hclose fun b hb => h b (List.mem_cons_of_mem _ hb)
    exact ⟨[] ++ u, by rw [dumpsGroup, ht, hu]; rfl, .items (List.forall_mem_nil _) hitems, huline⟩

end Groups

/-- A member of a dictionary. -/
def dumpsMember (m : List ℕ × JsonValue) : List ℕ := dumpsString m.1 ++ ':'.toNat :: ' '.toNat :: jsonDumpsText m.2

theorem dumpsItems_eq (items : List JsonValue) : dumpsItems items = dumpsGroup ']' jsonDumpsText items := by
  have hmore : ∀ items, dumpsMoreItems items = dumpsMore ']' jsonDumpsText items := by
    intro items
    induction items with
    | nil => rw [dumpsMoreItems, dumpsMore]
    | cons v items ih => rw [dumpsMoreItems, dumpsMore, ih]
  cases items with
  | nil => rw [dumpsItems, dumpsGroup]
  | cons v items => rw [dumpsItems, dumpsGroup, hmore]

theorem dumpsMembers_eq (members : List (List ℕ × JsonValue)) :
    dumpsMembers members = dumpsGroup '}' dumpsMember members := by
  have hmore : ∀ members, dumpsMoreMembers members = dumpsMore '}' dumpsMember members := by
    intro members
    induction members with
    | nil => rw [dumpsMoreMembers, dumpsMore]
    | cons m members ih =>
      rw [dumpsMoreMembers, dumpsMore, ih]
      rfl
  cases members with
  | nil => rw [dumpsMembers, dumpsGroup]
  | cons m members =>
    rw [dumpsMembers, dumpsGroup, hmore]
    rfl

/-! ### Values -/

section Values

variable {L : DecodeLimits}

/-- A value that is no list and no dictionary. -/
theorem jsonDumpsText_scalar {v : JsonValue} (hv : v.isScalar = true) {d : ℕ} (hw : WrittenAt L d v)
    (hpoints : ∀ n ∈ textPoints v, n.isValidChar) :
    ∃ t, jsonDumpsText v = t.map Char.toNat ∧ ScalarText v t ∧ OneLine t := by
  have hall : ∀ t : List Char, (t.all fun c => decide (32 ≤ c.toNat)) = true → OneLine t := fun t h c hc =>
    of_decide_eq_true (List.all_eq_true.mp h c hc)
  cases v with
  | null => exact ⟨_, by rw [jsonDumpsText], .null, hall _ (by decide)⟩
  | bool b =>
    cases b with
    | true => exact ⟨_, by rw [jsonDumpsText], .true, hall _ (by decide)⟩
    | false => exact ⟨_, by rw [jsonDumpsText], .false, hall _ (by decide)⟩
  | number i x =>
    obtain ⟨hi, hx, -⟩ : IntegerText i ∧ TailText x ∧ ∀ bound ∈ L.digits, digitCount i ≤ bound := by
      cases d <;> exact hw
    refine ⟨i ++ x, by rw [jsonDumpsText], .number hi hx, fun c hc => ?_⟩
    exact printable_of_number (number_isNumberChar hi hx c hc)
  | str us =>
    rw [textPoints] at hpoints
    obtain ⟨t, ht, htext, hline⟩ := dumpsString_text hpoints
    refine ⟨'"' :: (t ++ ['"']), by rw [jsonDumpsText, dumpsString_eq ht], .str htext, ?_⟩
    exact oneLine_quoted hline
  | arr _ => cases hv
  | obj _ => cases hv

/-- **The text of a value without surrogates** is a JSON text of it, on one line. -/
theorem jsonDumpsText_textAt {n : ℕ} {v : JsonValue} (hw : WrittenAt L n v)
    (hpoints : ∀ n ∈ textPoints v, n.isValidChar) :
    ∃ t, jsonDumpsText v = t.map Char.toNat ∧ ValueTextAt n v t ∧ OneLine t := by
  induction n generalizing v with
  | zero =>
    refine jsonDumpsText_scalar ?_ hw hpoints
    cases v with
    | arr _ => exact absurd hw id
    | obj _ => exact absurd hw id
    | _ => rfl
  | succ n ih =>
    have hscalar : v.isScalar = true → ∃ t, jsonDumpsText v = t.map Char.toNat ∧ ValueTextAt (n + 1) v t ∧ OneLine t :=
      fun hv => by
        obtain ⟨t, ht, htext, hline⟩ := jsonDumpsText_scalar hv hw hpoints
        exact ⟨t, ht, .inl htext, hline⟩
    cases v with
    | arr items =>
      rw [textPoints] at hpoints
      obtain ⟨u, hu, hgroup, hline⟩ : ∃ u, dumpsGroup ']' jsonDumpsText items = u.map Char.toNat ∧
          GroupText ']' (ValueTextAt n) items u ∧ OneLine u :=
        dumpsGroup_text (by decide) fun v hv => ih (hw v hv) fun k hk => hpoints k (mem_textPointsItems hv hk)
      refine ⟨'[' :: u, ?_, .inr (.inl ⟨_, u, rfl, rfl, hgroup⟩), List.forall_mem_cons.mpr ⟨by decide, hline⟩⟩
      rw [jsonDumpsText, dumpsItems_eq, hu, List.map_cons]
    | obj members =>
      rw [textPoints] at hpoints
      have hmember : ∀ m ∈ members, ∃ t, dumpsMember m = t.map Char.toNat ∧ MemberText (ValueTextAt n) m t ∧
          OneLine t := by
        rintro ⟨name, v⟩ hm
        obtain ⟨s, hs, hname, hsline⟩ := dumpsString_text fun k hk => hpoints k (mem_textPointsMembers hm (.inl hk))
        obtain ⟨u, hu, hvalue, huline⟩ := ih (hw _ hm) fun k hk => hpoints k (mem_textPointsMembers hm (.inr hk))
        refine ⟨'"' :: (s ++ '"' :: ([] ++ ':' :: ([' '] ++ u))), ?_,
          .mk hname (List.forall_mem_nil _) (List.forall_mem_singleton.mpr (by decide)) hvalue, ?_⟩
        · rw [dumpsMember, dumpsString_eq hs, hu]
          simp
        · refine List.forall_mem_cons.mpr ⟨by decide, List.forall_mem_append.mpr ⟨hsline, ?_⟩⟩
          exact List.forall_mem_cons.mpr ⟨by decide, List.forall_mem_cons.mpr ⟨by decide,
            List.forall_mem_cons.mpr ⟨by decide, huline⟩⟩⟩
      obtain ⟨u, hu, hgroup, hline⟩ : ∃ u, dumpsGroup '}' dumpsMember members = u.map Char.toNat ∧
          GroupText '}' (MemberText (ValueTextAt n)) members u ∧ OneLine u :=
        dumpsGroup_text (by decide) hmember
      refine ⟨'\x7b' :: u, ?_, .inr (.inr ⟨_, u, rfl, rfl, hgroup⟩), List.forall_mem_cons.mpr ⟨by decide, hline⟩⟩
      rw [jsonDumpsText, dumpsMembers_eq, hu, List.map_cons]
    | null => exact hscalar rfl
    | bool _ => exact hscalar rfl
    | number _ _ => exact hscalar rfl
    | str _ => exact hscalar rfl

end Values

end LocalSqlAgent
