import LocalSqlAgent.Lib.JsonReading

/-! # What the JSON decoder accepts

The other half of `scans_value`: what the decoder returns was in the text.

* **`Returns`**: a scanner returns only what it has read a text of.
* **`returns_value`**: so does the decoder, of every value that JSON has. It also reads three constants that
  JSON has not.
* **`scanValue_shortens`**: with every value it takes something off the text. -/

namespace LocalSqlAgent

universe u

/-- **A scanner returns `a` only off a text of it.** -/
def Returns {α : Type u} (item : List Char → Decoded α) (text : α → List Char → Prop) (a : α) : Prop :=
  ∀ cs rest, item cs = .ok (a, rest) → ∃ t, cs = t ++ rest ∧ text a t

/-! ## White space -/

theorem skipSpace_split (cs : List Char) : ∃ w, AllSpace w ∧ cs = w ++ skipSpace cs :=
  ⟨cs.takeWhile isJsonSpace, fun _ hc => List.mem_takeWhile_imp hc, List.takeWhile_append_dropWhile.symm⟩

/-! ## Strings -/

/-- An escape stands for its code unit. -/
theorem scanString_sound {cs rest : List Char} {us : List ℕ} (h : scanString cs = some (us, rest)) :
    ∃ t, cs = t ++ '"' :: rest ∧ StringText us t := by
  induction cs using scanString.induct generalizing us with
  | case1 => rw [scanString] at h; cases h
  | case2 r =>
    rw [scanString] at h
    cases h
    exact ⟨[], rfl, .nil⟩
  | case3 a b c d r x hx ih =>
    rw [scanString_unit hx, Option.map_eq_some_iff] at h
    obtain ⟨⟨us, r'⟩, hr, heq⟩ := h
    cases heq
    obtain ⟨t, rfl, ht⟩ := ih hr
    exact ⟨'\\' :: 'u' :: a :: b :: c :: d :: t, rfl, .unit hx ht⟩
  | case4 a b c d r hx => rw [scanString, hx] at h; cases h
  | case5 e r x hu hx ih =>
    rw [scanString_escape hx, Option.map_eq_some_iff] at h
    obtain ⟨⟨us, r'⟩, hr, heq⟩ := h
    cases heq
    obtain ⟨t, rfl, ht⟩ := ih hr
    exact ⟨'\\' :: e :: t, rfl, .escape hx ht⟩
  | case6 e r hu hx =>
    rw [scanString, hx] at h
    · cases h
    · exact hu
  | case7 c r hquote hunit hback hc =>
    rw [scanString, if_pos hc] at h
    · cases h
    · exact hquote
    · exact hunit
    · exact hback
  | case8 c r hquote hunit hback hc ih =>
    have hc' : 32 ≤ c.toNat := by omega
    by_cases hslash : c = '\\'
    · -- a backslash at the end of the text
      have hend : r = [] := by
        cases r with
        | nil => rfl
        | cons e r => exact (hback e r hslash rfl).elim
      rw [scanString, if_neg hc, hend, scanString] at h
      · cases h
      · exact hquote
      · exact hunit
      · exact hback
    · rw [scanString_plain hc' hquote hslash, Option.map_eq_some_iff] at h
      obtain ⟨⟨us, r'⟩, hr, heq⟩ := h
      cases heq
      obtain ⟨t, rfl, ht⟩ := ih hr
      exact ⟨c :: t, rfl, .plain hc' hquote hslash ht⟩

/-! ## Numbers -/

/-- A run of digits. -/
theorem digitRun_sound {cs : List Char} (h : cs.takeWhile isDecimalDigit ≠ []) :
    DigitsText (cs.takeWhile isDecimalDigit) := ⟨h, fun _ hc => List.mem_takeWhile_imp hc⟩

theorem scanUnsigned_sound {cs i r : List Char} (h : scanUnsigned cs = some (i, r)) :
    cs = i ++ r ∧ UnsignedText i := by
  cases cs with
  | nil => cases h
  | cons c cs =>
    rw [scanUnsigned] at h
    split at h
    · rename_i hzero
      cases h
      exact ⟨by rw [hzero]; rfl, .inl rfl⟩
    · rename_i hzero
      split at h
      · rename_i hdigit
        cases h
        refine ⟨?_, .inr ⟨⟨List.cons_ne_nil _ _, ?_⟩, fun hhead => hzero (Option.some.inj hhead)⟩⟩
        · rw [List.cons_append, List.takeWhile_append_dropWhile]
        · exact List.forall_mem_cons.mpr ⟨hdigit, fun _ hc => List.mem_takeWhile_imp hc⟩
      · cases h

theorem scanInteger_sound {cs i r : List Char} (h : scanInteger cs = some (i, r)) : cs = i ++ r ∧ IntegerText i := by
  unfold scanInteger at h
  split at h
  · obtain ⟨⟨i', r'⟩, hunsigned, heq⟩ := Option.map_eq_some_iff.mp h
    cases heq
    obtain ⟨rfl, hi⟩ := scanUnsigned_sound hunsigned
    exact ⟨rfl, .inr ⟨i', rfl, hi⟩⟩
  · obtain ⟨rfl, hi⟩ := scanUnsigned_sound h
    exact ⟨rfl, .inl hi⟩

theorem scanFraction_sound (cs : List Char) :
    cs = (scanFraction cs).1 ++ (scanFraction cs).2 ∧ FractionText (scanFraction cs).1 := by
  unfold scanFraction
  split
  · rename_i r
    split
    · exact ⟨rfl, .inl rfl⟩
    · rename_i hdigits
      exact ⟨by rw [List.cons_append, List.takeWhile_append_dropWhile], .inr ⟨_, rfl, digitRun_sound hdigits⟩⟩
  · exact ⟨rfl, .inl rfl⟩

theorem scanSign_sound (cs : List Char) : cs = (scanSign cs).1 ++ (scanSign cs).2 ∧ SignText (scanSign cs).1 := by
  cases cs with
  | nil => exact ⟨rfl, .inl rfl⟩
  | cons c cs =>
    rw [scanSign]
    split
    · rename_i hsign
      exact ⟨rfl, .inr (hsign.imp (congrArg (fun c => [c])) (congrArg (fun c => [c])))⟩
    · exact ⟨rfl, .inl rfl⟩

theorem scanExponent_sound (cs : List Char) :
    cs = (scanExponent cs).1 ++ (scanExponent cs).2 ∧ ExponentText (scanExponent cs).1 := by
  cases cs with
  | nil => exact ⟨rfl, .inl rfl⟩
  | cons c cs =>
    obtain ⟨hsplit, hsign⟩ := scanSign_sound cs
    rw [scanExponent]
    split
    · rename_i hexponent
      refine ⟨?_, .inr ⟨c, _, _, rfl, hexponent.1, hsign, digitRun_sound hexponent.2⟩⟩
      rw [List.cons_append, List.append_assoc, List.takeWhile_append_dropWhile, ← hsplit]
    · exact ⟨rfl, .inl rfl⟩

/-- **What is read as a number is the text of one.** -/
theorem scanNumber_sound {cs i x r : List Char} (h : scanNumber cs = some (i, x, r)) :
    cs = (i ++ x) ++ r ∧ IntegerText i ∧ TailText x := by
  obtain ⟨⟨i', r'⟩, hinteger, heq⟩ := Option.map_eq_some_iff.mp h
  cases heq
  obtain ⟨rfl, hi⟩ := scanInteger_sound hinteger
  obtain ⟨hfraction, hf⟩ := scanFraction_sound r'
  obtain ⟨hexponent, hx⟩ := scanExponent_sound (scanFraction r').2
  refine ⟨?_, hi, _, _, hf, hx, rfl⟩
  simp only [List.append_assoc]
  rw [← hexponent, ← hfraction]

/-! ## Scalars -/

section Scalars

variable {L : DecodeLimits}

/-- A constant that is the value of a JSON text is one of JSON's words. -/
theorem scalarText_constant {k : List Char × JsonValue} (hk : k ∈ jsonConstants) {t : List Char}
    (h : ScalarText k.2 t) : ScalarText k.2 k.1 := by
  -- every constant has a character that no number has
  have hnot : ∀ i : List Char, (i.any fun c => !isNumberChar c) = true → ∀ x t, ¬ ScalarText (.number i x) t := by
    intro i hi x t hnumber
    obtain ⟨c, hc, hother⟩ := List.any_eq_true.mp hi
    cases hnumber with
    | number hi hx =>
      rw [number_isNumberChar hi hx c (List.mem_append_left _ hc)] at hother
      cases hother
  simp only [jsonConstants, List.mem_cons, List.not_mem_nil, or_false] at hk
  obtain rfl | rfl | rfl | rfl | rfl | rfl := hk
  · exact .null
  · exact .true
  · exact .false
  · exact absurd h (hnot _ (by decide) _ t)
  · exact absurd h (hnot _ (by decide) _ t)
  · exact absurd h (hnot _ (by decide) _ t)

theorem returns_scalar {v : JsonValue} {t₀ : List Char} (hv : ScalarText v t₀) :
    Returns (scanScalar L) ScalarText v := by
  intro cs rest h
  unfold scanScalar at h
  split at h
  · split at h
    · rename_i us r hstring
      cases h
      obtain ⟨t, rfl, ht⟩ := scanString_sound hstring
      exact ⟨'"' :: (t ++ ['"']), by simp, .str ht⟩
    · cases h
  · split at h
    · rename_i r hconstant
      cases h
      obtain ⟨k, hfind, heq⟩ := Option.map_eq_some_iff.mp hconstant
      cases heq
      have hpre : k.1.isPrefixOf cs = true :=
        List.find?_some (p := fun k : List Char × JsonValue => k.1.isPrefixOf cs) hfind
      obtain ⟨q, rfl⟩ := List.isPrefixOf_iff_prefix.mp hpre
      exact ⟨k.1, by rw [List.drop_left], scalarText_constant (List.mem_of_find?_eq_some hfind) hv⟩
    · unfold decodeNumber at h
      split at h
      · cases h
      · rename_i i x r hnumber
        split at h
        · cases h
        · cases h
          obtain ⟨rfl, hi, hx⟩ := scanNumber_sound hnumber
          exact ⟨i ++ x, rfl, .number hi hx⟩

end Scalars

/-! ## Lists and dictionaries -/

section Groups

variable {α : Type u} {item : List Char → Decoded α} {text : α → List Char → Prop} {close : Char}

theorem scanItems_sound {n : ℕ} {cs rest : List Char} {as : List α} (hitem : ∀ a ∈ as, Returns item text a)
    (h : scanItems close item n cs = .ok (as, rest)) : ∃ u, cs = u ++ rest ∧ ItemsText close text as u := by
  induction n generalizing cs as with
  | zero => cases h
  | succ n ih =>
    rw [scanItems] at h
    split at h
    · cases h
    · rename_i a after hread
      obtain ⟨w, hw, hafter⟩ := skipSpace_split after
      split at h
      · cases h
      · rename_i c r hskip
        rw [hskip] at hafter
        split at h
        · rename_i hclose
          cases h
          obtain ⟨t, rfl, ht⟩ := hitem a List.mem_cons_self cs after hread
          refine ⟨t ++ (w ++ [close]), ?_, .last ht hw⟩
          rw [hafter, hclose]
          simp
        · split at h
          · rename_i hcomma
            cases hnext : scanItems close item n (skipSpace r) with
            | error e => rw [hnext] at h; cases h
            | ok s =>
              rw [hnext] at h
              cases h
              obtain ⟨t, rfl, ht⟩ := hitem a List.mem_cons_self cs after hread
              obtain ⟨w', hw', hr⟩ := skipSpace_split r
              obtain ⟨u, hu, hitems⟩ := ih (fun b hb => hitem b (List.mem_cons_of_mem _ hb)) hnext
              refine ⟨t ++ (w ++ ',' :: (w' ++ u)), ?_, .cons ht hw hw' hitems⟩
              rw [hafter, hcomma, hr, hu]
              simp
          · cases h

theorem scanGroup_sound {cs rest : List Char} {as : List α} (hitem : ∀ a ∈ as, Returns item text a)
    (h : scanGroup close item cs = .ok (as, rest)) : ∃ u, cs = u ++ rest ∧ GroupText close text as u := by
  obtain ⟨w, hw, hcs⟩ := skipSpace_split cs
  unfold scanGroup at h
  split at h
  · rename_i c r hskip
    split at h
    · rename_i hclose
      cases h
      refine ⟨w ++ [close], ?_, .empty hw⟩
      rw [hcs, hskip, hclose]
      simp
    · obtain ⟨u, hu, hitems⟩ := scanItems_sound hitem h
      exact ⟨w ++ u, by rw [hcs, hskip, hu, List.append_assoc], .items hw hitems⟩
  · cases h

theorem returns_member {value : List Char → Decoded JsonValue} {valueText : JsonValue → List Char → Prop}
    {m : List ℕ × JsonValue} (hvalue : Returns value valueText m.2) :
    Returns (scanMember value) (MemberText valueText) m := by
  intro cs rest h
  unfold scanMember at h
  split at h
  · rename_i r
    split at h
    · cases h
    · rename_i name after hname
      obtain ⟨s, rfl, hs⟩ := scanString_sound hname
      obtain ⟨w, hw, hafter⟩ := skipSpace_split after
      split at h
      · rename_i r hcolon
        cases hread : value (skipSpace r) with
        | error e => rw [hread] at h; cases h
        | ok q =>
          rw [hread] at h
          cases h
          obtain ⟨w', hw', hr⟩ := skipSpace_split r
          obtain ⟨u, hu, hv⟩ := hvalue _ _ hread
          refine ⟨'"' :: (s ++ '"' :: (w ++ ':' :: (w' ++ u))), ?_, .mk hs hw hw' hv⟩
          rw [hafter, hcolon, hr, hu]
          simp
      · cases h
  · cases h

end Groups

/-! ## Values -/

section Values

variable {L : DecodeLimits}

/-- What the items of a text are the texts of. -/
theorem GroupText.exists_text {α : Type u} {close : Char} {item : α → List Char → Prop} {as : List α} {u : List Char}
    (h : GroupText close item as u) : ∀ a ∈ as, ∃ t, item a t := by
  have hitems : ∀ {as u}, ItemsText close item as u → ∀ a ∈ as, ∃ t, item a t := by
    intro as u hu
    induction hu with
    | last ht _ => exact List.forall_mem_singleton.mpr ⟨_, ht⟩
    | cons ht _ _ _ ih => exact List.forall_mem_cons.mpr ⟨⟨_, ht⟩, ih⟩
  cases h with
  | empty _ => exact List.forall_mem_nil _
  | items _ hu => exact hitems hu

/-- A value that is no list and no dictionary. -/
def JsonValue.isScalar : JsonValue → Bool
  | .arr _ => false
  | .obj _ => false
  | _ => true

theorem ValueTextAt.scalar {n : ℕ} {v : JsonValue} {t : List Char} (h : ValueTextAt n v t)
    (hscalar : v.isScalar = true) : ScalarText v t := by
  cases n with
  | zero => exact h
  | succ n =>
    obtain h | ⟨_, _, rfl, -⟩ | ⟨_, _, rfl, -⟩ := h
    · exact h
    · cases hscalar
    · cases hscalar

theorem ValueTextAt.items {n : ℕ} {items : List JsonValue} {t : List Char} (h : ValueTextAt n (.arr items) t) :
    ∀ a ∈ items, ∃ n t, ValueTextAt n a t := by
  cases n with
  | zero => cases h
  | succ n =>
    obtain h | ⟨_, _, heq, -, hu⟩ | ⟨_, _, heq, -⟩ := h
    · cases h
    · cases heq
      exact fun a ha => ⟨n, hu.exists_text a ha⟩
    · cases heq

theorem ValueTextAt.members {n : ℕ} {members : List (List ℕ × JsonValue)} {t : List Char}
    (h : ValueTextAt n (.obj members) t) : ∀ m ∈ members, ∃ n t, ValueTextAt n m.2 t := by
  cases n with
  | zero => cases h
  | succ n =>
    obtain h | ⟨_, _, heq, -⟩ | ⟨_, _, heq, -, hu⟩ := h
    · cases h
    · cases heq
    · cases heq
      intro m hm
      obtain ⟨t, ht⟩ := hu.exists_text m hm
      cases ht with
      | mk _ _ _ ht => exact ⟨n, _, ht⟩

theorem scanScalar_isScalar {cs r : List Char} {v : JsonValue} (h : scanScalar L cs = .ok (v, r)) :
    v.isScalar = true := by
  have hconstants : (jsonConstants.all fun k => k.2.isScalar) = true := by decide
  unfold scanScalar at h
  split at h
  · split at h
    · cases h
      rfl
    · cases h
  · split at h
    · rename_i hconstant
      cases h
      obtain ⟨k, hfind, heq⟩ := Option.map_eq_some_iff.mp hconstant
      cases heq
      exact List.all_eq_true.mp hconstants k (List.mem_of_find?_eq_some hfind)
    · unfold decodeNumber at h
      split at h
      · cases h
      · split at h
        · cases h
        · cases h
          rfl

/-- The three ways the decoder reads a value. -/
theorem scanValue_cases {d : ℕ} {cs r : List Char} {v : JsonValue} (h : scanValue L d cs = .ok (v, r)) :
    (∃ n u items, d = n + 1 ∧ cs = '[' :: u ∧ v = .arr items ∧ scanGroup ']' (scanValue L n) u = .ok (items, r)) ∨
      (∃ n u members, d = n + 1 ∧ cs = '{' :: u ∧ v = .obj members ∧
        scanGroup '}' (scanMember (scanValue L n)) u = .ok (members, r)) ∨
      scanScalar L cs = .ok (v, r) := by
  unfold scanValue at h
  split at h
  · cases h
  · cases h
  · rename_i n u
    cases hgroup : scanGroup ']' (scanValue L n) u with
    | error e => rw [hgroup] at h; cases h
    | ok q =>
      rw [hgroup] at h
      cases h
      exact .inl ⟨n, u, q.1, rfl, rfl, rfl, hgroup⟩
  · rename_i n u
    cases hgroup : scanGroup '}' (scanMember (scanValue L n)) u with
    | error e => rw [hgroup] at h; cases h
    | ok q =>
      rw [hgroup] at h
      cases h
      exact .inr (.inl ⟨n, u, q.1, rfl, rfl, rfl, hgroup⟩)
  · exact .inr (.inr h)

theorem returns_scalarAt {n : ℕ} {v : JsonValue} {t₀ : List Char} (hv : ValueTextAt n v t₀) (d : ℕ) :
    Returns (scanScalar L) (ValueTextAt d) v := by
  intro cs rest h
  obtain ⟨t, hcs, ht⟩ := returns_scalar (hv.scalar (scanScalar_isScalar h)) cs rest h
  cases d with
  | zero => exact ⟨t, hcs, ht⟩
  | succ d => exact ⟨t, hcs, .inl ht⟩

/-- **The decoder returns a JSON value** only off a text of it. -/
theorem returns_value {d n : ℕ} {v : JsonValue} {t₀ : List Char} (hv : ValueTextAt n v t₀) :
    Returns (scanValue L d) (ValueTextAt d) v := by
  induction d generalizing n v t₀ with
  | zero =>
    intro cs rest h
    obtain ⟨_, _, _, hd, -⟩ | ⟨_, _, _, hd, -⟩ | h := scanValue_cases h
    · cases hd
    · cases hd
    · exact returns_scalarAt hv 0 cs rest h
  | succ d ih =>
    have hvalue : ∀ a, (∃ n t, ValueTextAt n a t) → Returns (scanValue L d) (ValueTextAt d) a := by
      rintro a ⟨_, _, ha⟩
      exact ih ha
    intro cs rest h
    obtain ⟨_, u, items, hd, rfl, rfl, hgroup⟩ | ⟨_, u, members, hd, rfl, rfl, hgroup⟩ | h := scanValue_cases h
    · cases hd
      obtain ⟨t, rfl, ht⟩ := scanGroup_sound (fun a ha => hvalue a (hv.items a ha)) hgroup
      exact ⟨'[' :: t, rfl, .inr (.inl ⟨items, t, rfl, rfl, ht⟩)⟩
    · cases hd
      obtain ⟨t, rfl, ht⟩ := scanGroup_sound (fun m hm => returns_member (hvalue m.2 (hv.members m hm))) hgroup
      exact ⟨'{' :: t, rfl, .inr (.inr ⟨members, t, rfl, rfl, ht⟩)⟩
    · exact returns_scalarAt hv (d + 1) cs rest h

/-- **`raw_decode` reads a dictionary of JSON** exactly off its texts, within the bounds. -/
theorem rawDecode_obj_iff {members : List (List ℕ × JsonValue)} {t₀ cs rest : List Char}
    (hv : ValueText (.obj members) t₀) :
    rawDecode L cs = .ok (.obj members, rest) ↔
      FitsAt L L.depth (.obj members) ∧ ∃ t, cs = t ++ rest ∧ ValueText (.obj members) t := by
  constructor
  · intro h
    obtain ⟨n, hn⟩ := hv
    obtain ⟨t, rfl, ht⟩ := returns_value hn cs rest h
    refine ⟨?_, t, rfl, L.depth, ht⟩
    by_contra hfits
    obtain ⟨e, -, he⟩ := (closes_rawDecode (L := L) ⟨L.depth, ht⟩).refuses rest hfits
    rw [h] at he
    cases he
  · rintro ⟨hfits, t, rfl, ht⟩
    exact (closes_rawDecode ht).reads rest hfits

/-! ## What is left is shorter -/

/-- **A scanner takes something off the text.** -/
def Shortens {α : Type u} (item : List Char → Decoded α) : Prop :=
  ∀ cs a r, item cs = .ok (a, r) → r.length < cs.length

omit L in
theorem skipSpace_length (cs : List Char) : (skipSpace cs).length ≤ cs.length :=
  (List.dropWhile_suffix isJsonSpace).length_le

theorem scanScalar_shortens : Shortens (scanScalar L) := by
  intro cs v r h
  unfold scanScalar at h
  split at h
  · split at h
    · rename_i hstring
      cases h
      obtain ⟨t, rfl, -⟩ := scanString_sound hstring
      simp only [List.length_cons, List.length_append]
      omega
    · cases h
  · split at h
    · rename_i hconstant
      cases h
      obtain ⟨k, hfind, heq⟩ := Option.map_eq_some_iff.mp hconstant
      cases heq
      have hpre : k.1.isPrefixOf cs = true :=
        List.find?_some (p := fun k : List Char × JsonValue => k.1.isPrefixOf cs) hfind
      have hlength : (jsonConstants.all fun k => decide (0 < k.1.length)) = true := by decide
      have hpos := of_decide_eq_true (List.all_eq_true.mp hlength k (List.mem_of_find?_eq_some hfind))
      have hle := (List.isPrefixOf_iff_prefix.mp hpre).length_le
      rw [List.length_drop]
      omega
    · unfold decodeNumber at h
      split at h
      · cases h
      · rename_i i x r hnumber
        split at h
        · cases h
        · cases h
          obtain ⟨rfl, hi, -⟩ := scanNumber_sound hnumber
          obtain ⟨c, u, rfl, -⟩ | ⟨c, u, rfl, -⟩ := hi.head <;>
          · simp only [List.length_cons, List.length_append]
            omega

section Groups

variable {α : Type u} {item : List Char → Decoded α} {close : Char}

omit L in
theorem scanItems_shortens (hitem : Shortens item) (n : ℕ) : Shortens (scanItems close item n) := by
  induction n with
  | zero =>
    intro cs as r h
    cases h
  | succ n ih =>
    intro cs as r h
    rw [scanItems] at h
    split at h
    · cases h
    · rename_i a after hread
      have hafter := hitem cs a after hread
      have hskip := skipSpace_length after
      split at h
      · cases h
      · rename_i c rest hcons
        rw [hcons, List.length_cons] at hskip
        split at h
        · cases h
          omega
        · split at h
          · cases hnext : scanItems close item n (skipSpace rest) with
            | error e => rw [hnext] at h; cases h
            | ok s =>
              rw [hnext] at h
              cases h
              have hrest := ih _ _ _ hnext
              have hle := skipSpace_length rest
              omega
          · cases h

omit L in
theorem scanGroup_shortens (hitem : Shortens item) : Shortens (scanGroup close item) := by
  intro cs as r h
  have hskip := skipSpace_length cs
  unfold scanGroup at h
  split at h
  · rename_i c rest hcons
    rw [hcons, List.length_cons] at hskip
    split at h
    · cases h
      omega
    · have hitems := scanItems_shortens hitem _ _ _ _ h
      rw [List.length_cons] at hitems
      omega
  · cases h

omit L in
theorem scanMember_shortens {value : List Char → Decoded JsonValue} (hvalue : Shortens value) :
    Shortens (scanMember value) := by
  intro cs m r h
  unfold scanMember at h
  split at h
  · split at h
    · cases h
    · rename_i name after hname
      obtain ⟨s, rfl, -⟩ := scanString_sound hname
      have hskip := skipSpace_length after
      split at h
      · rename_i rest hcolon
        rw [hcolon, List.length_cons] at hskip
        cases hread : value (skipSpace rest) with
        | error e => rw [hread] at h; cases h
        | ok q =>
          rw [hread] at h
          cases h
          have hrest := hvalue _ _ _ hread
          have hle := skipSpace_length rest
          simp only [List.length_cons, List.length_append]
          omega
      · cases h
  · cases h

end Groups

/-- **The decoder takes something off the text** with every value. -/
theorem scanValue_shortens (d : ℕ) : Shortens (scanValue L d) := by
  induction d with
  | zero =>
    intro cs v r h
    obtain ⟨_, _, _, hd, -⟩ | ⟨_, _, _, hd, -⟩ | h := scanValue_cases h
    · cases hd
    · cases hd
    · exact scanScalar_shortens cs v r h
  | succ d ih =>
    intro cs v r h
    obtain ⟨_, u, items, hd, rfl, -, h⟩ | ⟨_, u, members, hd, rfl, -, h⟩ | h := scanValue_cases h
    · cases hd
      exact (scanGroup_shortens ih _ _ _ h).trans (Nat.lt_succ_self _)
    · cases hd
      exact (scanGroup_shortens (scanMember_shortens ih) _ _ _ h).trans (Nat.lt_succ_self _)
    · exact scanScalar_shortens cs v r h

end Values

end LocalSqlAgent
