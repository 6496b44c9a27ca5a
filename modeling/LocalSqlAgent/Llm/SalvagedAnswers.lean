import LocalSqlAgent.Llm.SalvageStrings

/-! # What is salvaged of a JSON answer

A JSON answer that is a list, or an object with a list in it, cut off anywhere.

* **`Answer`**: the answer with its white space; every JSON text of a list or an object is the text of one.
* **`Answer.salvaged`**: the strings of the list whose closing quotes are before the cut, when every element
  begun before the cut is a string; none otherwise.
* **`salvageStringList_exact_iff`**: the function returns them exactly when no element that is no string is cut off
  behind a string, no fence is found in the answer, and the decoder meets no bound of the interpreter. -/

namespace LocalSqlAgent

/-! ## Answers -/

/-- An element of a list, with the white space around it. -/
structure Element where
  before : List Char
  value : JsonValue
  text : List Char
  after : List Char

/-- The text is one of the value, between white space. -/
def Element.Valid (e : Element) : Prop := AllSpace e.before ∧ ValueText e.value e.text ∧ AllSpace e.after

/-- The characters of a string, nothing for another value. -/
def Element.string? (e : Element) : Option (List ℕ) :=
  match e.value with
  | .str us => some (joinSurrogates us)
  | _ => none

/-- The length of an element with its comma. -/
def Element.span (e : Element) : ℕ := e.before.length + e.text.length + e.after.length + 1

/-- What stands behind an opening bracket: the elements, or white space when there are none. -/
def itemsText (w : List Char) : List Element → List Char
  | [] => w ++ [']']
  | [e] => e.before ++ (e.text ++ (e.after ++ [']']))
  | e :: e' :: es => e.before ++ (e.text ++ (e.after ++ ',' :: itemsText w (e' :: es)))

/-- The value of a member: a list with its elements, or a value that is no list. -/
inductive MemberValue where
  | list (w : List Char) (es : List Element)
  | other (value : JsonValue) (text : List Char)

def MemberValue.Valid : MemberValue → Prop
  | .list w es => AllSpace w ∧ ∀ e ∈ es, e.Valid
  | .other value text => (∀ items, value ≠ .arr items) ∧ ValueText value text

def MemberValue.text : MemberValue → List Char
  | .list w es => '[' :: itemsText w es
  | .other _ text => text

/-- A member of an object, with the white space around its tokens. -/
structure Member where
  before : List Char
  name : List ℕ
  nameText : List Char
  afterName : List Char
  beforeValue : List Char
  value : MemberValue
  after : List Char

def Member.Valid (m : Member) : Prop :=
  AllSpace m.before ∧ StringText m.name m.nameText ∧ AllSpace m.afterName ∧ AllSpace m.beforeValue ∧ m.value.Valid ∧
    AllSpace m.after

/-- The member up to its value. -/
def Member.head (m : Member) : List Char :=
  m.before ++ ('"' :: (m.nameText ++ ['"']) ++ (m.afterName ++ ':' :: m.beforeValue))

/-- The length of a member with its comma. -/
def Member.span (m : Member) : ℕ := m.head.length + m.value.text.length + m.after.length + 1

/-- What stands behind an opening brace. -/
def membersText (w : List Char) : List Member → List Char
  | [] => w ++ ['}']
  | [m] => m.head ++ (m.value.text ++ (m.after ++ ['}']))
  | m :: m' :: ms => m.head ++ (m.value.text ++ (m.after ++ ',' :: membersText w (m' :: ms)))

/-- A list or an object. -/
inductive Answer where
  | list (w : List Char) (es : List Element)
  | object (w : List Char) (ms : List Member)

def Answer.Valid : Answer → Prop
  | .list w es => AllSpace w ∧ ∀ e ∈ es, e.Valid
  | .object w ms => AllSpace w ∧ ∀ m ∈ ms, m.Valid

/-- **The text of an answer.** -/
def Answer.text : Answer → List Char
  | .list w es => '[' :: itemsText w es
  | .object w ms => '{' :: membersText w ms

/-! ## What is to be salvaged -/

/-- **The elements begun** in the first `n` characters. -/
def begun : ℕ → List Element → List Element
  | _, [] => []
  | n, e :: es => if n ≤ e.before.length then [] else e :: begun (n - e.span) es

/-- **The elements that end** in the first `n` characters. -/
def wholeElements : ℕ → List Element → List Element
  | _, [] => []
  | n, e :: es => if n < e.before.length + e.text.length then [] else e :: wholeElements (n - e.span) es

/-- **The whole strings**, when nothing else was begun. -/
def salvagedItems (n : ℕ) (es : List Element) : List (List ℕ) :=
  if (begun n es).all fun e => e.string?.isSome then (wholeElements n es).filterMap Element.string? else []

/-- The list under the key, or a list when there is no key. -/
def Member.target (key : Option (List ℕ)) (m : Member) : Option (List Element) :=
  match m.value with
  | .list _ es => if key.isNone || key = some (joinSurrogates m.name) then some es else none
  | .other _ _ => none

/-- Of an object the first such list counts. -/
def salvagedMembers (key : Option (List ℕ)) : ℕ → List Member → List (List ℕ)
  | _, [] => []
  | n, m :: ms =>
    match m.target key with
    | some es => salvagedItems (n - (m.head.length + 1)) es
    | none => salvagedMembers key (n - m.span) ms

/-- **What is to be salvaged** of the first `n` characters of an answer. -/
def Answer.salvaged (key : Option (List ℕ)) (n : ℕ) : Answer → List (List ℕ)
  | .list _ es => salvagedItems (n - 1) es
  | .object _ ms => salvagedMembers key (n - 1) ms

/-! ## When it is -/

/-- **An element that is no string** is tolerated when the decoder returns a value there, be it a shorter number,
or finds no JSON there and no string was before it. -/
def Tolerated (L : DecodeLimits) (afterString : Bool) (q : List Char) : Prop :=
  (∃ found, rawDecode L q = .ok found) ∨ (afterString = false ∧ rawDecode L q = .error .syntactic)

/-- The first element that is no string, if it was begun before the cut, is tolerated. -/
def ItemsRead (L : DecodeLimits) : Bool → List Element → List Char → Prop
  | _, [], _ => True
  | afterString, e :: es, q =>
    q.drop e.before.length = [] ∨
      if e.string?.isSome then ItemsRead L true es (q.drop e.span)
      else Tolerated L afterString (q.drop e.before.length)

/-- Up to the list the decoder meets no bound, and in the list the elements are tolerated. -/
def MembersRead (L : DecodeLimits) (key : Option (List ℕ)) : List Member → List Char → Prop
  | [], _ => True
  | m :: ms, q =>
    match m.target key with
    | some es => ItemsRead L false es (q.drop (m.head.length + 1))
    | none => MeetsNoBound L (q.drop m.head.length) ∧ MembersRead L key ms (q.drop m.span)

/-- The answer is read up to the cut. -/
def Answer.Read (L : DecodeLimits) (key : Option (List ℕ)) (q : List Char) : Answer → Prop
  | .list _ es => ItemsRead L false es (q.drop 1)
  | .object _ ms => MembersRead L key ms (q.drop 1)

/-! ## What the decoder makes of a string -/

section Strings

variable {L : DecodeLimits} {cs r : List Char} {us : List ℕ}

theorem rawDecode_quote (r : List Char) : rawDecode L ('"' :: r) = scanScalar L ('"' :: r) :=
  scanValue_scalar (by rintro _ ⟨⟩; exact ⟨by decide, by decide⟩) L.depth

/-- A string is read off a text that starts with a quote. -/
theorem quote_of_rawDecode (h : rawDecode L cs = .ok (.str us, r)) : ∃ p, cs = '"' :: p := by
  have hconstants : (jsonConstants.all fun k => match k.2 with | .str _ => false | _ => true) = true := by decide
  obtain ⟨_, _, _, -, -, hv, -⟩ | ⟨_, _, _, -, -, hv, -⟩ | h := scanValue_cases h
  · cases hv
  · cases hv
  unfold scanScalar at h
  split at h
  · exact ⟨_, rfl⟩
  · split at h
    · rename_i hconstant
      cases h
      obtain ⟨k, hfind, heq⟩ := Option.map_eq_some_iff.mp hconstant
      have hk := List.all_eq_true.mp hconstants k (List.mem_of_find?_eq_some hfind)
      rw [(Prod.mk.inj heq).1] at hk
      cases hk
    · unfold decodeNumber at h
      split at h
      · cases h
      · split at h
        · cases h
        · cases h

/-- Only strings have texts that start with a quote. -/
theorem ValueText.noQuote {v : JsonValue} {t : List Char} (h : ValueText v t) (hv : ∀ us, v ≠ .str us) :
    ∀ p, t ≠ '"' :: p := by
  have hscalar : ScalarText v t → ∀ p, t ≠ '"' :: p := by
    intro hs p hp
    cases hs with
    | null => cases hp
    | true => cases hp
    | false => cases hp
    | number hi _ =>
      obtain ⟨c, u, rfl, hc⟩ | ⟨c, u, rfl, -⟩ := hi.head
      · obtain rfl : c = '"' := List.head_eq_of_cons_eq hp
        exact absurd hc (by decide)
      · cases hp
    | str _ => exact absurd rfl (hv _)
  obtain ⟨n, hn⟩ := h
  cases n with
  | zero => exact hscalar hn
  | succ n =>
    obtain hn | ⟨_, u, -, rfl, -⟩ | ⟨_, u, -, rfl, -⟩ := hn
    · exact hscalar hn
    · intro p hp
      cases hp
    · intro p hp
      cases hp

/-- Only lists have texts that start with a bracket. -/
theorem ValueText.noBracket {v : JsonValue} {t : List Char} (h : ValueText v t) (hv : ∀ items, v ≠ .arr items) :
    ∀ p, t ≠ '[' :: p := by
  have hscalar : ScalarText v t → ∀ p, t ≠ '[' :: p := by
    intro hs p hp
    obtain ⟨c, u, rfl, hc, -⟩ := hs.head
    exact hc (List.head_eq_of_cons_eq hp)
  obtain ⟨n, hn⟩ := h
  cases n with
  | zero => exact hscalar hn
  | succ n =>
    obtain hn | ⟨_, _, rfl, -⟩ | ⟨_, u, -, rfl, -⟩ := hn
    · exact hscalar hn
    · exact absurd rfl (hv _)
    · intro p hp
      cases hp

/-- The text of a string is between quotes. -/
theorem ValueText.quotes {t : List Char} (h : ValueText (.str us) t) : ∃ u, t = '"' :: (u ++ ['"']) ∧ StringText us u := by
  have hscalar : ScalarText (.str us) t → ∃ u, t = '"' :: (u ++ ['"']) ∧ StringText us u := by
    intro hs
    cases hs with
    | str hu => exact ⟨_, rfl, hu⟩
  obtain ⟨n, hn⟩ := h
  cases n with
  | zero => exact hscalar hn
  | succ n =>
    obtain hn | ⟨_, _, hv, -⟩ | ⟨_, _, hv, -⟩ := hn
    · exact hscalar hn
    · cases hv
    · cases hv

/-- A string that is cut off is not read. -/
theorem rawDecode_cutString {u p : List Char} (hu : StringText us u) (hp : p <+: '"' :: (u ++ ['"']))
    (hne : p ≠ '"' :: (u ++ ['"'])) : rawDecode L p = .error .syntactic := by
  obtain rfl | ⟨p, rfl, hcons⟩ := List.prefix_cons_iff.mp hp
  · exact scanValue_nil L.depth
  · have hcut : p <+: u := by
      obtain ⟨hfront, -⟩ | ⟨q, rfl, hquote⟩ := prefix_append_or hcons
      · exact hfront
      · obtain rfl | ⟨q', rfl, hend⟩ := List.prefix_cons_iff.mp hquote
        · exact ⟨[], by simp⟩
        · rw [List.prefix_nil.mp hend] at hne
          exact absurd rfl hne
    rw [rawDecode_quote, scanScalar, scanString_cut hu hcut]

theorem rawDecode_string {u : List Char} (hu : StringText us u) (rest : List Char) :
    rawDecode L ('"' :: (u ++ ['"']) ++ rest) = .ok (.str us, rest) := by
  have happend : '"' :: (u ++ ['"']) ++ rest = '"' :: (u ++ '"' :: rest) := by simp
  rw [happend, rawDecode_quote, scanScalar, scanString_text hu]

end Strings

/-! ## The loop over the elements -/

section Items

variable {L : DecodeLimits} {w q x : List Char} {e : Element} {es : List Element}

/-- An element, its white space, and a comma or the closing bracket. -/
theorem itemsText_cons (w : List Char) (e : Element) (es : List Element) : ∃ tail,
    itemsText w (e :: es) = e.before ++ (e.text ++ (e.after ++ tail)) ∧
      ((es = [] ∧ tail = [']']) ∨ (es ≠ [] ∧ tail = ',' :: itemsText w es)) := by
  cases es with
  | nil => exact ⟨[']'], rfl, .inl ⟨rfl, rfl⟩⟩
  | cons e' es => exact ⟨',' :: itemsText w (e' :: es), rfl, .inr ⟨List.cons_ne_nil _ _, rfl⟩⟩

@[simp] theorem begun_zero (es : List Element) : begun 0 es = [] := by
  cases es with
  | nil => rfl
  | cons e es => exact if_pos (Nat.zero_le _)

theorem Element.Valid.opens (h : e.Valid) : Opens e.text := (scans_rawDecode (L := ⟨0, none⟩) h.2.1).opens

theorem Opens.length_pos {t : List Char} (h : Opens t) : 0 < t.length := by
  obtain ⟨c, u, rfl, -⟩ := h
  exact Nat.succ_pos _

theorem wholeElements_zero (h : ∀ e ∈ es, e.Valid) : wholeElements 0 es = [] := by
  cases es with
  | nil => rfl
  | cons e es =>
    have hpos := (h e List.mem_cons_self).opens.length_pos
    exact if_pos (by omega)

theorem salvagedItems_zero (h : ∀ e ∈ es, e.Valid) : salvagedItems 0 es = [] := by
  rw [salvagedItems, wholeElements_zero h]
  exact ite_self []

theorem itemsRead_nil (b : Bool) (es : List Element) : ItemsRead L b es [] := by
  cases es with
  | nil => trivial
  | cons e es => exact .inl List.drop_nil

/-- Behind a value there is a comma, or the decoder's text ends with it. -/
theorem comma_cases {close : Char} {P : Prop} {after tail u : List Char} (hclose : close ≠ ',')
    (hspace : isJsonSpace close = false) (hafter : AllSpace after) (hq : q <+: after ++ (tail ++ x))
    (htail : (P ∧ tail = [close]) ∨ tail = ',' :: u) :
    ((∀ rest, skipSpace q ≠ ',' :: rest) ∧ (P ∨ q.length ≤ after.length)) ∨
      ∃ q', q = after ++ ',' :: q' ∧ q' <+: u ++ x ∧ skipSpace q = ',' :: q' := by
  obtain ⟨hfront, -⟩ | ⟨q, rfl, hback⟩ := prefix_append_or hq
  · refine .inl ⟨fun rest => ?_, .inr hfront.length_le⟩
    rw [skipSpace_space (hafter.of_front hfront)]
    exact (List.cons_ne_nil _ _).symm
  · rw [skipSpace_append hafter]
    obtain ⟨hP, rfl⟩ | rfl := htail
    · obtain rfl | ⟨q, rfl, -⟩ := List.prefix_cons_iff.mp hback
      · exact .inl ⟨fun rest => (List.cons_ne_nil _ _).symm, .inl hP⟩
      · refine .inl ⟨fun rest heq => hclose ?_, .inl hP⟩
        rw [skipSpace_cons hspace] at heq
        exact List.head_eq_of_cons_eq heq
    · obtain rfl | ⟨q', rfl, hnext⟩ := List.prefix_cons_iff.mp hback
      · refine .inl ⟨fun rest => (List.cons_ne_nil _ _).symm, .inr ?_⟩
        rw [List.append_nil]
      · exact .inr ⟨q', rfl, hnext, skipSpace_cons (by decide) q'⟩

/-- At an element that is no string the loop returns nothing, but for the strings before JSON that is broken. -/
theorem completeStrings_other_iff {cs r : List Char} {c : Char} {n : ℕ} {items : List (List ℕ)}
    (hskip : skipSpace cs = c :: r) (hc : c ≠ ']') (hquote : c ≠ '"') :
    completeStrings L (n + 1) items cs = .ok [] ↔ Tolerated L (!items.isEmpty) (c :: r) := by
  unfold Tolerated
  cases hread : rawDecode L (c :: r) with
  | ok found =>
    refine iff_of_true (completeStrings_other hskip hc (fun us hv => hquote ?_) hread) (.inl ⟨found, rfl⟩)
    obtain ⟨p, hp⟩ := quote_of_rawDecode (hread.trans (congrArg Except.ok (Prod.ext hv rfl)))
    exact List.head_eq_of_cons_eq hp
  | error e =>
    by_cases he : e = .syntactic
    · rw [completeStrings_broken hskip hc (he ▸ hread)]
      cases items with
      | nil => exact iff_of_true rfl (.inr ⟨rfl, congrArg Except.error he⟩)
      | cons item items =>
        refine iff_of_false (fun h => by cases h) ?_
        rintro (⟨_, h⟩ | ⟨h, -⟩)
        · cases h
        · cases h
    · rw [completeStrings_bound hskip hc he hread]
      refine iff_of_false (fun h => by cases h) ?_
      rintro (⟨_, h⟩ | ⟨-, h⟩)
      · cases h
      · exact he (Except.error.inj h)

/-- **What the loop returns** behind the strings `items`, at a cut of the elements. -/
theorem completeStrings_cut (hw : AllSpace w) (hes : ∀ e ∈ es, e.Valid) (hq : q <+: itemsText w es ++ x)
    {n : ℕ} (hn : q.length < n) (items : List (List ℕ)) :
    completeStrings L n items q = .ok (if (begun q.length es).all fun e => e.string?.isSome then
        items ++ (wholeElements q.length es).filterMap Element.string? else []) ↔
      ItemsRead L (!items.isEmpty) es q := by
  induction es generalizing q n items with
  | nil =>
    have hends : ∀ c ∈ (skipSpace q).head?, c = ']' := by
      rw [itemsText, List.append_assoc] at hq
      obtain ⟨hspace, -⟩ | ⟨q, rfl, hclose⟩ := prefix_append_or hq
      · rw [skipSpace_space (hw.of_front hspace)]
        rintro c ⟨⟩
      · rw [skipSpace_append hw]
        obtain rfl | ⟨q, rfl, -⟩ := List.prefix_cons_iff.mp hclose
        · rintro c ⟨⟩
        · rw [skipSpace_cons (by decide)]
          rintro c ⟨⟩
          rfl
    refine iff_of_true ?_ trivial
    rw [completeStrings_ends hends]
    exact congrArg Except.ok (List.append_nil items).symm
  | cons e es ih =>
    obtain ⟨hbefore, htext, hafter⟩ := hes e List.mem_cons_self
    have hopens := (hes e List.mem_cons_self).opens
    have hrest : ∀ e ∈ es, e.Valid := fun e he => hes e (List.mem_cons_of_mem _ he)
    obtain ⟨tail, hcons, htail⟩ := itemsText_cons w e es
    obtain ⟨m, rfl⟩ : ∃ m, n = m + 1 := ⟨n - 1, by omega⟩
    rw [hcons] at hq
    simp only [List.append_assoc] at hq
    rw [begun, wholeElements, ItemsRead]
    by_cases hlead : q.length ≤ e.before.length
    · -- nothing of the element is before the cut
      have hspace : q <+: e.before := List.prefix_of_prefix_length_le hq (List.prefix_append _ _) hlead
      have hends : ∀ c ∈ (skipSpace q).head?, c = ']' := by
        rw [skipSpace_space (hbefore.of_front hspace)]
        rintro c ⟨⟩
      refine iff_of_true ?_ (.inl (List.drop_eq_nil_of_le hlead))
      have hshort : q.length < e.before.length + e.text.length := by have := hopens.length_pos; omega
      rw [completeStrings_ends hends, if_pos hlead, if_pos hshort]
      exact congrArg Except.ok (List.append_nil items).symm
    obtain ⟨hspace, -⟩ | ⟨q₁, rfl, hq₁⟩ := prefix_append_or hq
    · exact absurd hspace.length_le hlead
    rw [List.length_append] at hn hlead ⊢
    rw [if_neg hlead, List.drop_left]
    -- the first character of the element is before the cut
    obtain ⟨c, t, htext', hcspace, hcclose⟩ := id hopens
    obtain ⟨r, rfl⟩ : ∃ r, q₁ = c :: r := by
      rw [htext'] at hq₁
      obtain rfl | ⟨r, rfl, -⟩ := List.prefix_cons_iff.mp hq₁
      · exact absurd (Nat.le_of_eq (Nat.add_zero _)) hlead
      · exact ⟨r, rfl⟩
    have hskip : skipSpace (e.before ++ c :: r) = c :: r := by
      rw [skipSpace_append hbefore, skipSpace_cons hcspace]
    have hc : c ≠ ']' := fun heq => hcclose (heq ▸ List.mem_cons_self)
    have hne : ¬ c :: r = [] := List.cons_ne_nil c r
    cases hstring : e.string? with
    | none =>
      have hquote : c ≠ '"' := by
        rintro rfl
        refine htext.noQuote (fun us hv => ?_) t htext'
        rw [Element.string?, hv] at hstring
        cases hstring
      simp only [List.all_cons, hstring, Option.isSome_none, Bool.false_and, Bool.false_eq_true, if_false, hne,
        false_or]
      exact completeStrings_other_iff hskip hc hquote
    | some s =>
      obtain ⟨us, hvalue, rfl⟩ : ∃ us, e.value = .str us ∧ s = joinSurrogates us := by
        unfold Element.string? at hstring
        split at hstring
        · rename_i us hvalue
          exact ⟨us, hvalue, (Option.some.inj hstring).symm⟩
        · cases hstring
      obtain ⟨u, hquotes, hu⟩ := (hvalue ▸ htext : ValueText (.str us) e.text).quotes
      simp only [List.all_cons, hstring, Option.isSome_some, Bool.true_and, if_true, hne, false_or]
      obtain ⟨hfront, hcut⟩ | ⟨q₂, hwhole, hq₂⟩ := prefix_append_or hq₁
      · -- the string is cut off
        have hbroken : rawDecode L (c :: r) = .error .syntactic :=
          rawDecode_cutString hu (hquotes ▸ hfront) (hquotes ▸ hcut)
        have hlength : (c :: r).length < e.text.length := by
          refine lt_of_le_of_ne hfront.length_le fun heq => hcut (hfront.eq_of_length heq)
        have hspan : e.before.length + (c :: r).length - e.span = 0 := by unfold Element.span; omega
        have hdrop : List.drop e.span (e.before ++ c :: r) = [] := by
          refine List.drop_eq_nil_of_le ?_
          rw [List.length_append]
          omega
        rw [completeStrings_broken hskip hc hbroken, hspan, begun_zero, if_pos (Nat.add_lt_add_left hlength _), hdrop]
        exact iff_of_true (congrArg Except.ok (List.append_nil items).symm) (itemsRead_nil true es)
      · have hread : rawDecode L (c :: r) = .ok (.str us, q₂) := by
          rw [hwhole, hquotes]
          exact rawDecode_string hu q₂
        have hlength : (c :: r).length = e.text.length + q₂.length := by rw [hwhole, List.length_append]
        have hlong : ¬ e.before.length + (c :: r).length < e.before.length + e.text.length := by omega
        rw [if_neg hlong, List.filterMap_cons_some hstring]
        obtain ⟨hnone, hend⟩ | ⟨q₃, rfl, hq₃, hcomma⟩ := comma_cases (by decide) (by decide) hafter hq₂
            (htail.imp_right And.right)
        · -- no comma: the elements end, or the cut is before the next one
          rw [completeStrings_last hskip hc hread hnone]
          obtain rfl | hshort := hend
          · exact iff_of_true rfl trivial
          · have hspan : e.before.length + (c :: r).length - e.span = 0 := by unfold Element.span; omega
            have hdrop : List.drop e.span (e.before ++ c :: r) = [] := by
              refine List.drop_eq_nil_of_le ?_
              rw [List.length_append]
              omega
            rw [hspan, begun_zero, wholeElements_zero hrest, hdrop]
            exact iff_of_true rfl (itemsRead_nil true es)
        · have hspan : e.before.length + (c :: r).length - e.span = q₃.length := by
            rw [hlength, List.length_append, List.length_cons]
            unfold Element.span
            omega
          have hdrop : List.drop e.span (e.before ++ c :: r) = q₃ := by
            have hsplit : e.before ++ c :: r = (e.before ++ (e.text ++ (e.after ++ [',']))) ++ q₃ := by
              rw [hwhole]
              simp
            rw [hsplit]
            refine List.drop_left' ?_
            simp only [List.length_append, List.length_cons, List.length_nil]
            unfold Element.span
            omega
          have hfuel : q₃.length < m := by
            rw [hlength, List.length_append, List.length_cons] at hn
            omega
          rw [completeStrings_more hskip hc hread hcomma, hspan, hdrop]
          have hnext := ih hrest hq₃ hfuel (items ++ [joinSurrogates us])
          have hsome : (items ++ [joinSurrogates us]).isEmpty = false := by cases items <;> rfl
          rw [List.append_assoc, hsome, Bool.not_false] at hnext
          exact hnext

end Items

/-! ## The loop over the members -/

section Members

variable {L : DecodeLimits} {key : Option (List ℕ)} {w q x : List Char} {m : Member} {ms : List Member}

theorem membersText_cons (w : List Char) (m : Member) (ms : List Member) : ∃ tail,
    membersText w (m :: ms) = m.head ++ (m.value.text ++ (m.after ++ tail)) ∧
      ((ms = [] ∧ tail = ['}']) ∨ tail = ',' :: membersText w ms) := by
  cases ms with
  | nil => exact ⟨['}'], rfl, .inl ⟨rfl, rfl⟩⟩
  | cons m' ms => exact ⟨',' :: membersText w (m' :: ms), rfl, .inr rfl⟩

/-- The elements of a member's list. -/
theorem Member.target_eq_some {es : List Element} (h : m.target key = some es) :
    ∃ w, m.value = .list w es ∧ (key.isNone || key = some (joinSurrogates m.name)) = true := by
  unfold Member.target at h
  split at h
  · rename_i w es' hvalue
    split at h
    · rename_i hkey
      cases h
      exact ⟨w, hvalue, hkey⟩
    · cases h
  · cases h

theorem Member.Valid.elements {es : List Element} (hm : m.Valid) (h : m.target key = some es) : ∀ e ∈ es, e.Valid := by
  obtain ⟨w, hvalue, -⟩ := Member.target_eq_some h
  have hlist := hm.2.2.2.2.1
  rw [hvalue] at hlist
  exact hlist.2

theorem salvagedMembers_zero (hms : ∀ m ∈ ms, m.Valid) : salvagedMembers key 0 ms = [] := by
  induction ms with
  | nil => rfl
  | cons m ms ih =>
    rw [salvagedMembers]
    split
    · rename_i es htarget
      rw [Nat.zero_sub]
      exact salvagedItems_zero ((hms m List.mem_cons_self).elements htarget)
    · rw [Nat.zero_sub]
      exact ih fun m hm => hms m (List.mem_cons_of_mem _ hm)

theorem membersRead_nil (ms : List Member) : MembersRead L key ms [] := by
  induction ms with
  | nil => trivial
  | cons m ms ih =>
    rw [MembersRead]
    split
    · rw [List.drop_nil]
      exact itemsRead_nil false _
    · rw [List.drop_nil, List.drop_nil]
      exact ⟨meetsNoBound_of_syntactic (scanValue_nil L.depth), ih⟩

/-- **A member whose value was not begun**: nothing is to be salvaged, and no bound is met. -/
theorem member_notBegun (hms : ∀ m' ∈ m :: ms, m'.Valid) (hq : q.length ≤ m.head.length) :
    salvagedMembers key q.length (m :: ms) = [] ∧ MembersRead L key (m :: ms) q := by
  have hhead : List.drop m.head.length q = [] := List.drop_eq_nil_of_le hq
  have hspan : q.length ≤ m.span := by unfold Member.span; omega
  rw [salvagedMembers, MembersRead]
  cases htarget : m.target key with
  | some es =>
    dsimp only
    rw [Nat.sub_eq_zero_of_le (by omega), List.drop_eq_nil_of_le (by omega)]
    exact ⟨salvagedItems_zero ((hms m List.mem_cons_self).elements htarget), itemsRead_nil false es⟩
  | none =>
    dsimp only
    rw [Nat.sub_eq_zero_of_le hspan, List.drop_eq_nil_of_le hspan, hhead]
    exact ⟨salvagedMembers_zero fun m' hm' => hms m' (List.mem_cons_of_mem _ hm'),
      meetsNoBound_of_syntactic (scanValue_nil L.depth), membersRead_nil ms⟩

/-- **A name and its colon** are read. -/
theorem head_read (hm : m.Valid) (q : List Char) : rawDecode L (skipSpace (m.head ++ q)) =
    .ok (.str m.name, m.afterName ++ ':' :: (m.beforeValue ++ q)) := by
  obtain ⟨hbefore, hname, -⟩ := hm
  have hskip : skipSpace (m.head ++ q) =
      '"' :: (m.nameText ++ ['"']) ++ (m.afterName ++ ':' :: (m.beforeValue ++ q)) := by
    unfold Member.head
    simp only [List.append_assoc, List.cons_append]
    rw [skipSpace_append hbefore, skipSpace_cons (by decide)]
  rw [hskip, rawDecode_string hname]

/-- Before the value nothing is returned. -/
theorem salvageMembers_head (hm : m.Valid) (hq : q <+: m.head) (n : ℕ) : salvageMembers L key (n + 1) q = .ok [] := by
  obtain ⟨hbefore, hname, hafterName, hbeforeValue, -⟩ := hm
  have hempty : rawDecode L [] = .error .syntactic := scanValue_nil L.depth
  unfold Member.head at hq
  obtain ⟨hspace, -⟩ | ⟨q₁, rfl, hq₁⟩ := prefix_append_or hq
  · exact salvageMembers_broken (by rw [skipSpace_space (hbefore.of_front hspace), hempty])
  obtain ⟨hfront, hcut⟩ | ⟨q₂, rfl, hq₂⟩ := prefix_append_or hq₁
  · -- the name is cut off
    have hopens : Opens ('"' :: (m.nameText ++ ['"'])) := ⟨'"', _, rfl, by decide, by decide⟩
    refine salvageMembers_broken ?_
    rw [skipSpace_append hbefore, hopens.skipSpace_front hfront, rawDecode_cutString hname hfront hcut]
  have hskip : skipSpace (m.before ++ ('"' :: (m.nameText ++ ['"']) ++ q₂)) =
      '"' :: (m.nameText ++ ['"']) ++ q₂ := by
    rw [skipSpace_append hbefore, List.cons_append, skipSpace_cons (by decide)]
  have hread : rawDecode L (skipSpace (m.before ++ ('"' :: (m.nameText ++ ['"']) ++ q₂))) = .ok (.str m.name, q₂) := by
    rw [hskip, rawDecode_string hname]
  have hnoColon : skipSpace q₂ = [] → salvageMembers L key (n + 1) (m.before ++ ('"' :: (m.nameText ++ ['"']) ++ q₂)) =
      .ok [] := by
    intro hnone
    refine salvageMembers_noName hread fun name rest _ => ?_
    rw [hnone]
    exact (List.cons_ne_nil _ _).symm
  obtain ⟨hspace, -⟩ | ⟨q₃, rfl, hq₃⟩ := prefix_append_or hq₂
  · exact hnoColon (skipSpace_space (hafterName.of_front hspace))
  obtain rfl | ⟨q₄, rfl, hq₄⟩ := List.prefix_cons_iff.mp hq₃
  · exact hnoColon (by rw [skipSpace_append hafterName]; rfl)
  · have hcolon : skipSpace (m.afterName ++ ':' :: q₄) = ':' :: q₄ := by
      rw [skipSpace_append hafterName, skipSpace_cons (by decide)]
    have hvalue : skipSpace q₄ = [] := skipSpace_space (hbeforeValue.of_front hq₄)
    exact salvageMembers_brokenValue hread hcolon (by rw [hvalue]; rfl) (by rw [hvalue, hempty])

/-- The value of a member. -/
def MemberValue.value : MemberValue → JsonValue
  | .list _ es => .arr (es.map Element.value)
  | .other value _ => value

/-- The elements between the brackets are the text of a group. -/
theorem itemsText_group {es : List Element} (hw : AllSpace w) (hes : ∀ e ∈ es, e.Valid) :
    GroupText ']' ValueText (es.map Element.value) (itemsText w es) := by
  have hitems : ∀ {e : Element} {es : List Element}, (∀ e' ∈ e :: es, e'.Valid) →
      ∃ u, itemsText w (e :: es) = e.before ++ u ∧ ItemsText ']' ValueText (e.value :: es.map Element.value) u := by
    intro e es
    induction es generalizing e with
    | nil =>
      intro hes
      obtain ⟨-, htext, hafter⟩ := hes e List.mem_cons_self
      exact ⟨_, rfl, .last htext hafter⟩
    | cons e' es ih =>
      intro hes
      obtain ⟨-, htext, hafter⟩ := hes e List.mem_cons_self
      have hrest : ∀ e ∈ e' :: es, e.Valid := fun e he => hes e (List.mem_cons_of_mem _ he)
      obtain ⟨u, hu, hitems⟩ := ih hrest
      refine ⟨e.text ++ (e.after ++ ',' :: (e'.before ++ u)), ?_,
        .cons htext hafter (hrest e' List.mem_cons_self).1 hitems⟩
      rw [itemsText, hu]
  cases es with
  | nil => exact .empty hw
  | cons e es =>
    obtain ⟨u, hu, hitems⟩ := hitems hes
    rw [hu]
    exact .items (hes e List.mem_cons_self).1 hitems

/-- **The decoder reads the value of a member.** -/
theorem scans_memberValue {v : MemberValue} (h : v.Valid) :
    Scans (rawDecode L) (FitsAt L L.depth v.value) v.value v.text := by
  cases v with
  | list w es =>
    refine (closes_list (fun d v t hv => ?_) (itemsText_group h.1 h.2) L.depth).scans
      ⟨'[', _, rfl, by decide, by decide⟩
    obtain ⟨n, hn⟩ := hv
    exact scans_value hn d
  | other value text => exact scans_rawDecode h.2

/-- The list that is asked for, as the code tells it by its first character. -/
theorem isTarget_eq {r : List Char} (hm : m.Valid) (hr : r ≠ []) (hq : r <+: m.value.text ++ x) :
    isTarget key m.name r = (m.target key).isSome := by
  obtain ⟨c, t, htext, -⟩ := (scans_memberValue (L := ⟨0, none⟩) hm.2.2.2.2.1).opens
  obtain ⟨r, rfl⟩ : ∃ r', r = c :: r' := by
    rw [htext] at hq
    obtain rfl | ⟨r', rfl, -⟩ := List.prefix_cons_iff.mp hq
    · exact absurd rfl hr
    · exact ⟨r', rfl⟩
  have hvalue := hm.2.2.2.2.1
  unfold isTarget Member.target
  cases hv : m.value with
  | list w es =>
    rw [hv] at htext
    obtain rfl : '[' = c := List.head_eq_of_cons_eq htext
    cases key.isNone || decide (key = some (joinSurrogates m.name)) <;> rfl
  | other value text =>
    rw [hv] at htext hvalue
    have hc : c ≠ '[' := by
      rintro rfl
      exact hvalue.2.noBracket hvalue.1 t htext
    rw [List.head?_cons, decide_eq_false fun h => hc (Option.some.inj h)]
    rfl

/-- **What the loop over the members returns** at a cut. -/
theorem salvageMembers_cut (hw : AllSpace w) (hms : ∀ m ∈ ms, m.Valid) (hq : q <+: membersText w ms ++ x)
    {n : ℕ} (hn : q.length < n) :
    salvageMembers L key n q = .ok (salvagedMembers key q.length ms) ↔ MembersRead L key ms q := by
  induction ms generalizing q n with
  | nil =>
    have hbroken : rawDecode L (skipSpace q) = .error .syntactic := by
      rw [membersText, List.append_assoc] at hq
      obtain ⟨hspace, -⟩ | ⟨q, rfl, hclose⟩ := prefix_append_or hq
      · rw [skipSpace_space (hw.of_front hspace)]
        exact scanValue_nil L.depth
      · rw [skipSpace_append hw]
        obtain rfl | ⟨q, rfl, -⟩ := List.prefix_cons_iff.mp hclose
        · exact scanValue_nil L.depth
        · rw [skipSpace_cons (by decide)]
          exact scanValue_scalar (by rintro _ ⟨⟩; exact ⟨by decide, by decide⟩) L.depth
    obtain ⟨n, rfl⟩ : ∃ k, n = k + 1 := ⟨n - 1, by omega⟩
    exact iff_of_true (salvageMembers_broken hbroken) trivial
  | cons m ms ih =>
    obtain ⟨n, rfl⟩ : ∃ k, n = k + 1 := ⟨n - 1, by omega⟩
    have hm := hms m List.mem_cons_self
    have hrest : ∀ m ∈ ms, m.Valid := fun m hm => hms m (List.mem_cons_of_mem _ hm)
    obtain ⟨tail, hcons, htail⟩ := membersText_cons w m ms
    rw [hcons] at hq
    simp only [List.append_assoc] at hq
    obtain ⟨hfront, -⟩ | ⟨q₁, rfl, hq₁⟩ := prefix_append_or hq
    · obtain ⟨hnone, hread⟩ : salvagedMembers key q.length (m :: ms) = [] ∧ MembersRead L key (m :: ms) q :=
        member_notBegun hms hfront.length_le
      rw [hnone]
      exact iff_of_true (salvageMembers_head hm hfront n) hread
    by_cases hempty : q₁ = []
    · obtain rfl := hempty
      rw [List.append_nil]
      obtain ⟨hnone, hread⟩ : salvagedMembers key m.head.length (m :: ms) = [] ∧
          MembersRead L key (m :: ms) m.head := member_notBegun hms (Nat.le_refl m.head.length)
      rw [hnone]
      exact iff_of_true (salvageMembers_head hm List.prefix_rfl n) hread
    have hread := head_read (L := L) hm q₁
    have hcolon : skipSpace (m.afterName ++ ':' :: (m.beforeValue ++ q₁)) = ':' :: (m.beforeValue ++ q₁) := by
      rw [skipSpace_append hm.2.2.1, skipSpace_cons (by decide)]
    have hvalue := scans_memberValue (L := L) hm.2.2.2.2.1
    have hskip : skipSpace (m.beforeValue ++ q₁) = q₁ := by
      rw [skipSpace_append hm.2.2.2.1, (hvalue.opens.append _).skipSpace_front hq₁]
    have hlength : (m.head ++ q₁).length = m.head.length + q₁.length := List.length_append
    have htarget : isTarget key m.name q₁ = (m.target key).isSome := isTarget_eq hm hempty hq₁
    rw [salvagedMembers, MembersRead]
    cases hkey : m.target key with
    | some es =>
      -- the list: its elements are read
      obtain ⟨w', hlist, -⟩ := Member.target_eq_some hkey
      have hvalid : AllSpace w' ∧ ∀ e ∈ es, e.Valid := by
        have hlistValid := hm.2.2.2.2.1
        rwa [hlist] at hlistValid
      rw [hlist, MemberValue.text] at hq₁
      obtain ⟨q₂, rfl⟩ : ∃ q₂, q₁ = '[' :: q₂ := by
        obtain rfl | ⟨q₂, rfl, -⟩ := List.prefix_cons_iff.mp hq₁
        · exact absurd rfl hempty
        · exact ⟨q₂, rfl⟩
      have hq₂ : q₂ <+: itemsText w' es ++ (m.after ++ (tail ++ x)) := (List.cons_prefix_cons.mp hq₁).2
      have hdrop : List.drop (m.head.length + 1) (m.head ++ '[' :: q₂) = q₂ := by
        rw [List.append_cons]
        exact List.drop_left' List.length_append
      have hleft : (m.head ++ '[' :: q₂).length - (m.head.length + 1) = q₂.length := by
        rw [hlength, List.length_cons]
        omega
      have hfuel : q₂.length < (m.beforeValue ++ '[' :: q₂).length := by
        rw [List.length_append, List.length_cons]
        omega
      rw [salvageMembers_target hread hcolon (by rw [hskip, htarget, hkey]; rfl), hskip]
      dsimp only
      rw [hdrop, hleft]
      exact completeStrings_cut hvalid.1 hvalid.2 hq₂ hfuel []
    | none =>
      have hother : isTarget key m.name (skipSpace (m.beforeValue ++ q₁)) = false := by
        rw [hskip, htarget, hkey]
        rfl
      have hdrop : List.drop m.head.length (m.head ++ q₁) = q₁ := List.drop_left
      dsimp only
      rw [hdrop]
      obtain ⟨hfront, hcut⟩ | ⟨q₂, rfl, hq₂⟩ := prefix_append_or hq₁
      · -- the value is cut off: nothing is behind it
        have hshort : q₁.length < m.value.text.length :=
          lt_of_le_of_ne hfront.length_le fun heq => hcut (hfront.eq_of_length heq)
        have hspan : (m.head ++ q₁).length ≤ m.span := by
          rw [hlength]
          unfold Member.span
          omega
        rw [Nat.sub_eq_zero_of_le hspan, salvagedMembers_zero hrest, List.drop_eq_nil_of_le hspan,
          and_iff_left (membersRead_nil ms)]
        obtain ⟨e, he⟩ | ⟨v, r, hok, hnumber⟩ := hvalue.cuts q₁ hfront hcut
        · by_cases hsyntactic : e = .syntactic
          · obtain rfl := hsyntactic
            exact iff_of_true (salvageMembers_brokenValue hread hcolon hother (by rw [hskip, he]))
              (meetsNoBound_of_syntactic he)
          · refine iff_of_false ?_ (not_meetsNoBound hsyntactic he)
            rw [salvageMembers_boundValue hread hcolon hother hsyntactic (by rw [hskip, he])]
            exact fun h => by cases h
        · refine iff_of_true (salvageMembers_last hread hcolon hother (by rw [hskip, hok]) fun next hcomma => ?_)
            (meetsNoBound_of_ok hok)
          have hleft : ',' ∈ skipSpace r := hcomma ▸ List.mem_cons_self
          have hmem : ',' ∈ r := (List.dropWhile_suffix isJsonSpace).subset hleft
          exact absurd (hnumber ',' hmem) (by decide)
      · have hends : NumberEnds q₂ := by
          refine (numberEnds_append hm.2.2.2.2.2 ?_).of_front hq₂
          obtain ⟨-, rfl⟩ | rfl := htail
          · exact numberEnds_cons (by decide) _
          · exact numberEnds_cons (by decide) _
        by_cases hfits : FitsAt L L.depth m.value.value
        · have hok := hvalue.reads q₂ hends hfits
          rw [and_iff_right (meetsNoBound_of_ok hok)]
          obtain ⟨hnone, hend⟩ | ⟨q₃, rfl, hq₃, hcomma⟩ := comma_cases (by decide) (by decide) hm.2.2.2.2.2 hq₂ htail
          · -- no comma: the members end, or the cut is before the next one
            have hlast := salvageMembers_last (n := n) hread hcolon hother (by rw [hskip, hok]) hnone
            obtain rfl | hshort := hend
            · exact iff_of_true hlast trivial
            · have hspan : (m.head ++ (m.value.text ++ q₂)).length ≤ m.span := by
                rw [hlength, List.length_append]
                unfold Member.span
                omega
              rw [Nat.sub_eq_zero_of_le hspan, salvagedMembers_zero hrest, List.drop_eq_nil_of_le hspan]
              exact iff_of_true hlast (membersRead_nil ms)
          · have hspan : (m.head ++ (m.value.text ++ (m.after ++ ',' :: q₃))).length - m.span = q₃.length := by
              simp only [List.length_append, List.length_cons]
              unfold Member.span
              omega
            have hdropSpan : List.drop m.span (m.head ++ (m.value.text ++ (m.after ++ ',' :: q₃))) = q₃ := by
              have hsplit : m.head ++ (m.value.text ++ (m.after ++ ',' :: q₃)) =
                  (m.head ++ (m.value.text ++ (m.after ++ [',']))) ++ q₃ := by simp
              rw [hsplit]
              refine List.drop_left' ?_
              simp only [List.length_append, List.length_cons, List.length_nil]
              unfold Member.span
              omega
            have hfuel : q₃.length < n := by
              rw [hlength] at hn
              simp only [List.length_append, List.length_cons] at hn
              omega
            rw [salvageMembers_more hread hcolon hother (by rw [hskip, hok]) hcomma, hspan, hdropSpan]
            exact ih hrest hq₃ hfuel
        · obtain ⟨e, he, hbound⟩ := hvalue.refuses q₂ hends hfits
          refine iff_of_false ?_ fun h => not_meetsNoBound he hbound h.1
          rw [salvageMembers_boundValue hread hcolon hother he (by rw [hskip, hbound])]
          exact fun h => by cases h

end Members

end LocalSqlAgent
