import LocalSqlAgent.Lib.JsonAccepted

/-! # JSON texts that are cut off

The decoder on a prefix of a JSON text. When the value is within the interpreter's bounds, with its floats
written in no more digits than its integers, the cut is a syntax error and no bound is met.

* **`CutShort`**: a scanner that raises nothing but a syntax error on a prefix, or reads a shorter number.
* **`cutShort_value`**: so it is for the decoder on every text of a value that is `BoundedAt`.
* **`jsonLoadsText_cut`**: `json.loads` refuses every proper prefix of the text of a dictionary. -/

namespace LocalSqlAgent

universe u

/-- **Within the interpreter's bounds**, also when a number is cut off before its fraction. -/
def BoundedAt (L : DecodeLimits) : ℕ → JsonValue → Prop
  | 0, .arr _ => False
  | 0, .obj _ => False
  | n + 1, .arr items => ∀ v ∈ items, BoundedAt L n v
  | n + 1, .obj members => ∀ m ∈ members, BoundedAt L n m.2
  | _, .number i _ => ∀ bound ∈ L.digits, digitCount i ≤ bound
  | _, .null => True
  | _, .bool _ => True
  | _, .str _ => True

/-- **Nothing but a syntax error** on a text that is cut off, but for a shorter number. -/
def CutShort {α : Type u} (item : List Char → Decoded α) (t : List Char) : Prop :=
  ∀ p, p <+: t → p ≠ t →
    item p = .error .syntactic ∨ ∃ a r, item p = .ok (a, r) ∧ ∀ c ∈ r, isNumberChar c = true

/-! ## Bounds -/

section Bounds

variable {L : DecodeLimits}

theorem refuses_eq_false {i : List Char} (h : ∀ bound ∈ L.digits, digitCount i ≤ bound) (x : List Char) :
    L.refuses i x = false := by
  unfold DecodeLimits.refuses
  cases hdigits : L.digits with
  | none => rw [Option.any_none, Bool.and_false]
  | some bound =>
    have hle : ¬ bound < digitCount i := Nat.not_lt.mpr (h bound hdigits)
    rw [Option.any_some, decide_eq_false hle, Bool.and_false]

theorem BoundedAt.fitsAt {n : ℕ} {v : JsonValue} (h : BoundedAt L n v) : FitsAt L n v := by
  induction n generalizing v with
  | zero =>
    cases v with
    | number i x => exact refuses_eq_false h x
    | arr _ => exact h
    | obj _ => exact h
    | null => trivial
    | bool _ => trivial
    | str _ => trivial
  | succ n ih =>
    cases v with
    | number i x => exact refuses_eq_false h x
    | arr items => exact fun v hv => ih (h v hv)
    | obj members => exact fun m hm => ih (h m hm)
    | null => trivial
    | bool _ => trivial
    | str _ => trivial

end Bounds

/-! ## Scalars -/

section Scalars

variable {L : DecodeLimits}

/-- The characters of an integer part. -/
theorem IntegerText.chars {i : List Char} (h : IntegerText i) : ∀ c ∈ i, isDecimalDigit c = true ∨ c = '-' := by
  have hunsigned : ∀ t, UnsignedText t → ∀ c ∈ t, isDecimalDigit c = true := by
    rintro t (rfl | ⟨hds, -⟩)
    · exact List.forall_mem_singleton.mpr (by decide)
    · exact hds.2
  obtain h | ⟨u, rfl, h⟩ := h
  · exact fun c hc => .inl (hunsigned i h c hc)
  · exact List.forall_mem_cons.mpr ⟨.inr rfl, fun c hc => .inl (hunsigned u h c hc)⟩

/-- How a fraction or an exponent starts. -/
theorem TailText.head {x : List Char} (h : TailText x) : ∀ c ∈ x.head?, isDecimalDigit c = false ∧ c ≠ '-' := by
  obtain ⟨f, e, hf, he, rfl⟩ := h
  obtain rfl | ⟨ds, rfl, -⟩ := hf
  · obtain rfl | ⟨e, sign, ds, rfl, he, -⟩ := he
    · rintro _ ⟨⟩
    · rintro _ ⟨⟩
      obtain rfl | rfl := he <;> exact ⟨by decide, by decide⟩
  · rintro _ ⟨⟩
    exact ⟨by decide, by decide⟩

/-- The integer part of a number that is cut off is a prefix of its integer part. -/
theorem integer_prefix {i x i' : List Char} (hx : TailText x) (hi' : IntegerText i') (h : i' <+: i ++ x) : i' <+: i := by
  obtain ⟨hcut, -⟩ | ⟨q, rfl, hq⟩ := prefix_append_or h
  · exact hcut
  · cases q with
    | nil => exact ⟨[], by rw [List.append_nil, List.append_nil]⟩
    | cons c q =>
      have hhead : x.head? = some c := by
        obtain ⟨r, rfl⟩ := hq
        rfl
      obtain ⟨hdigit, hsign⟩ := hx.head c hhead
      obtain hc | hc := hi'.chars c (List.mem_append_right i List.mem_cons_self)
      · exact absurd (hdigit.symm.trans hc) Bool.false_ne_true
      · exact absurd hc hsign

/-- Nothing that starts with neither a digit nor a sign is a number. -/
theorem scanNumber_none {cs : List Char} (h : ∀ c ∈ cs.head?, isDecimalDigit c = false ∧ c ≠ '-') :
    scanNumber cs = none := by
  cases hnumber : scanNumber cs with
  | none => rfl
  | some r =>
    obtain ⟨i, x, r⟩ := r
    obtain ⟨rfl, hi, -⟩ := scanNumber_sound hnumber
    obtain ⟨c, u, rfl, hc⟩ | ⟨c, u, rfl, -⟩ := hi.head
    · exact absurd ((h c rfl).1.symm.trans hc) Bool.false_ne_true
    · exact absurd rfl (h '-' rfl).2

/-- What a scalar raises. -/
theorem scanScalar_error {cs : List Char} {e : DecodeFailure} (h : scanScalar L cs = .error e) :
    e = .syntactic ∨ ∃ i x r, scanNumber cs = some (i, x, r) ∧ L.refuses i x = true := by
  unfold scanScalar at h
  split at h
  · split at h
    · cases h
    · cases h
      exact .inl rfl
  · split at h
    · cases h
    · unfold decodeNumber at h
      split at h
      · cases h
        exact .inl rfl
      · split at h
        · exact .inr ⟨_, _, _, ‹_›, ‹_›⟩
        · cases h

/-- A text no prefix of which has an integer part that is too long. -/
theorem cutShort_of_scans {d : ℕ} {v : JsonValue} {t : List Char} (h : Scans (scanScalar L) (FitsAt L d v) v t)
    (hnumber : ∀ p, p <+: t → ∀ i x r, scanNumber p = some (i, x, r) → L.refuses i x = false) :
    CutShort (scanScalar L) t := by
  intro p hp hne
  obtain ⟨e, he⟩ | hread := h.cuts p hp hne
  · obtain rfl | ⟨i, x, r, hscan, hrefuses⟩ := scanScalar_error he
    · exact .inl he
    · exact absurd ((hnumber p hp i x r hscan).symm.trans hrefuses) Bool.false_ne_true
  · exact .inr hread

/-- **A scalar that is cut off.** -/
theorem cutShort_scalar {d : ℕ} {v : JsonValue} {t : List Char} (h : ScalarText v t) (hb : BoundedAt L d v) :
    CutShort (scanScalar L) t := by
  refine cutShort_of_scans (scans_scalar (d := d) h) fun p hp i x r hscan => ?_
  have hnone : (∀ c ∈ t.head?, isDecimalDigit c = false ∧ c ≠ '-') → L.refuses i x = false := by
    intro hhead
    obtain rfl | hne := eq_or_ne p []
    · cases hscan
    · obtain ⟨c, p, rfl⟩ := List.exists_cons_of_ne_nil hne
      obtain ⟨q, rfl⟩ := hp
      rw [@scanNumber_none (c :: p) hhead] at hscan
      cases hscan
  cases h with
  | null => exact hnone (by rintro _ ⟨⟩; exact ⟨by decide, by decide⟩)
  | true => exact hnone (by rintro _ ⟨⟩; exact ⟨by decide, by decide⟩)
  | false => exact hnone (by rintro _ ⟨⟩; exact ⟨by decide, by decide⟩)
  | str _ => exact hnone (by rintro _ ⟨⟩; exact ⟨by decide, by decide⟩)
  | @number i₀ x₀ hi₀ hx₀ =>
    have hbound : ∀ bound ∈ L.digits, digitCount i₀ ≤ bound := by
      cases d <;> exact hb
    obtain ⟨rfl, hi, -⟩ := scanNumber_sound hscan
    rw [List.append_assoc] at hp
    have hpre := integer_prefix hx₀ hi ((List.prefix_append i _).trans hp)
    exact refuses_eq_false (fun bound hb => (hpre.sublist.countP_le).trans (hbound bound hb)) x

end Scalars

/-! ## Lists and dictionaries -/

section Groups

variable {α : Type u} {close : Char} {item : List Char → Decoded α} {itemText : α → List Char → Prop}
  {fits : α → Prop} {as : List α} {u : List Char}

/-- An item that is cut off. -/
theorem scanItems_of_cutShort {cs : List Char} (hclose : isNumberChar close = false)
    (h : item cs = .error .syntactic ∨ ∃ a r, item cs = .ok (a, r) ∧ ∀ c ∈ r, isNumberChar c = true)
    (n : ℕ) : scanItems close item n cs = .error .syntactic := by
  cases n with
  | zero => rfl
  | succ n =>
    obtain he | hread := h
    · rw [scanItems, he]
    · obtain ⟨a, r, hread, hr⟩ := hread
      refine scanItems_stuck hread (fun c hc => ?_) (n + 1)
      have hnumber : isNumberChar c = true := hr c ((List.dropWhile_suffix _).subset (List.mem_of_head? hc))
      constructor
      · rintro rfl
        exact Bool.false_ne_true (hclose.symm.trans hnumber)
      · rintro rfl
        exact absurd hnumber (by decide)

variable (hclose : close = ']' ∨ close = '}') (hitem : ∀ a t, itemText a t → Scans item (fits a) a t)
include hclose hitem

omit hclose in
/-- An item with white space after it and nothing more. -/
theorem scanItems_then_space {a : α} {t q : List Char} (ht : itemText a t) (hfit : fits a) (hq : AllSpace q)
    (n : ℕ) : scanItems close item n (t ++ q) = .error .syntactic := by
  have hends : NumberEnds q := by
    have happend := numberEnds_append hq numberEnds_nil
    rwa [List.append_nil] at happend
  refine scanItems_stuck ((hitem a t ht).reads q hends hfit) ?_ n
  rw [skipSpace_space hq]
  rintro _ ⟨⟩

/-- **Items that are cut off.** -/
theorem scanItems_cutShort (h : ItemsText close itemText as u) (hfits : ∀ a ∈ as, fits a)
    (hcuts : ∀ a ∈ as, ∀ t, itemText a t → CutShort item t) {p : List Char} (hp : p <+: u) (hne : p ≠ u) (n : ℕ) :
    scanItems close item n p = .error .syntactic := by
  have hnumber : isNumberChar close = false := by obtain rfl | rfl := hclose <;> decide
  induction h generalizing p n with
  | @last a t w ht hw =>
    obtain ⟨hcut, hcutNe⟩ | ⟨q, rfl, hq⟩ := prefix_append_or hp
    · exact scanItems_of_cutShort hnumber (hcuts a List.mem_cons_self t ht p hcut hcutNe) n
    · obtain rfl | hspace := List.prefix_concat_iff.mp hq
      · exact absurd rfl hne
      · exact scanItems_then_space hitem ht (hfits a List.mem_cons_self) (hw.of_front hspace) n
  | @cons a as t w w' u ht hw hw' hu ih =>
    have hfit := hfits a List.mem_cons_self
    obtain ⟨hcut, hcutNe⟩ | ⟨q, rfl, hq⟩ := prefix_append_or hp
    · exact scanItems_of_cutShort hnumber (hcuts a List.mem_cons_self t ht p hcut hcutNe) n
    obtain ⟨hspace, -⟩ | ⟨q, rfl, hcomma⟩ := prefix_append_or hq
    · exact scanItems_then_space hitem ht hfit (hw.of_front hspace) n
    obtain rfl | ⟨q, rfl, hrest⟩ := List.prefix_cons_iff.mp hcomma
    · rw [List.append_nil]
      exact scanItems_then_space hitem ht hfit hw n
    -- the comma is there: the next items are cut off, or all missing
    obtain ⟨r, hr, hrne, hskip⟩ := skipSpace_cut hw' (hu.opens hitem) hrest fun heq => hne (by rw [heq])
    cases n with
    | zero => rfl
    | succ n =>
      have hnext := ih (fun b hb => hfits b (List.mem_cons_of_mem _ hb))
        (fun b hb => hcuts b (List.mem_cons_of_mem _ hb)) hr hrne n
      rw [scanItems_cons (by obtain rfl | rfl := hclose <;> decide)
        ((hitem a t ht).reads _ (numberEnds_close (by decide) hw q) hfit)
        (by rw [skipSpace_append hw, skipSpace_cons (by decide)]) n, hskip, hnext]
      rfl

/-- **What follows an opening bracket**, cut off. -/
theorem scanGroup_cutShort (h : GroupText close itemText as u) (hfits : ∀ a ∈ as, fits a)
    (hcuts : ∀ a ∈ as, ∀ t, itemText a t → CutShort item t) {p : List Char} (hp : p <+: u) (hne : p ≠ u) :
    scanGroup close item p = .error .syntactic := by
  have hall : ∀ w, AllSpace w → scanGroup close item w = .error .syntactic := fun w hw => by
    rw [scanGroup, skipSpace_space hw]
  cases h with
  | @empty w hw =>
    obtain rfl | hcut := List.prefix_concat_iff.mp hp
    · exact absurd rfl hne
    · exact hall p (hw.of_front hcut)
  | @items as w u hw hu =>
    obtain ⟨hcut, -⟩ | ⟨q, rfl, hq⟩ := prefix_append_or hp
    · exact hall p (hw.of_front hcut)
    obtain ⟨c, v, rfl, hspace, hcloses⟩ := hu.opens hitem
    obtain rfl | ⟨q, rfl, hrest⟩ := List.prefix_cons_iff.mp hq
    · rw [List.append_nil]
      exact hall w hw
    -- the first item does not look like the closing bracket
    have hc : c ≠ close := by
      rintro rfl
      exact hcloses (by obtain rfl | rfl := hclose <;> decide)
    rw [scanGroup, skipSpace_append hw, skipSpace_cons hspace]
    dsimp only
    rw [if_neg hc]
    exact scanItems_cutShort hclose hitem hu hfits hcuts hq (fun heq => hne (by rw [heq])) _

end Groups

/-- **A member that is cut off**: in its name, before its colon or in its value. -/
theorem cutShort_member {value : List Char → Decoded JsonValue} {valueText : JsonValue → List Char → Prop}
    {m : List ℕ × JsonValue} {t : List Char} (h : MemberText valueText m t)
    (hopens : ∀ u, valueText m.2 u → Opens u) (hcuts : ∀ u, valueText m.2 u → CutShort value u) :
    CutShort (scanMember value) t := by
  obtain @⟨name, v, s, w, w', u, hs, hw, hw', hu⟩ := h
  intro p hp hne
  obtain rfl | ⟨p, rfl, hname⟩ := List.prefix_cons_iff.mp hp
  · exact .inl rfl
  obtain ⟨hcut, -⟩ | ⟨q, rfl, hquote⟩ := prefix_append_or hname
  · exact .inl (by rw [scanMember, scanString_cut hs hcut])
  obtain rfl | ⟨q, rfl, hcolon⟩ := List.prefix_cons_iff.mp hquote
  · exact .inl (by rw [List.append_nil, scanMember, scanString_cut hs List.prefix_rfl])
  have hspace : ∀ q, AllSpace q → scanMember value ('"' :: (s ++ '"' :: q)) = .error .syntactic := fun q hq => by
    rw [scanMember, scanString_text hs]
    dsimp only
    rw [skipSpace_space hq]
  obtain ⟨hcut, -⟩ | ⟨q, rfl, hafter⟩ := prefix_append_or hcolon
  · exact .inl (hspace q (hw.of_front hcut))
  obtain rfl | ⟨q, rfl, hval⟩ := List.prefix_cons_iff.mp hafter
  · rw [List.append_nil]
    exact .inl (hspace w hw)
  obtain ⟨r, hr, hrne, hskip⟩ := skipSpace_cut hw' (hopens u hu) hval fun heq => hne (by rw [heq])
  have hmember : scanMember value ('"' :: (s ++ '"' :: (w ++ ':' :: q))) =
      (value r).map fun r => ((name, r.1), r.2) := by
    rw [scanMember, scanString_text hs]
    dsimp only
    rw [skipSpace_append hw, skipSpace_cons (by decide), ← hskip]
    rfl
  rw [hmember]
  obtain he | ⟨a, r', hread, hr'⟩ := hcuts u hu r hr hrne
  · exact .inl (by rw [he]; rfl)
  · exact .inr ⟨(name, a), r', by rw [hread]; rfl, hr'⟩

/-! ## Values -/

section Values

variable {L : DecodeLimits}

theorem cutShort_value_scalar {d : ℕ} {v : JsonValue} {t : List Char} (h : ScalarText v t) (hb : BoundedAt L d v) :
    CutShort (scanValue L d) t := by
  intro p hp hne
  obtain ⟨c, u, rfl, hlist, hdict⟩ := h.head
  have hsame : scanValue L d p = scanScalar L p := by
    obtain rfl | ⟨p, rfl, -⟩ := List.prefix_cons_iff.mp hp
    · exact scanValue_scalar (by rintro _ ⟨⟩) d
    · exact scanValue_scalar (by rintro _ ⟨⟩; exact ⟨hlist, hdict⟩) d
  rw [hsame]
  exact cutShort_scalar h hb p hp hne

/-- **A value that is cut off** is a syntax error, but for a shorter number. -/
theorem cutShort_value {n : ℕ} {v : JsonValue} {t : List Char} (h : ValueTextAt n v t) {d : ℕ}
    (hb : BoundedAt L d v) : CutShort (scanValue L d) t := by
  induction n generalizing v t d with
  | zero => exact cutShort_value_scalar h hb
  | succ n ih =>
    obtain h | ⟨items, u, rfl, rfl, hu⟩ | ⟨members, u, rfl, rfl, hu⟩ := h
    · exact cutShort_value_scalar h hb
    · cases d with
      | zero => exact absurd hb id
      | succ d =>
        intro p hp hne
        obtain rfl | ⟨p, rfl, hcut⟩ := List.prefix_cons_iff.mp hp
        · exact .inl (scanValue_nil _)
        · have herror := scanGroup_cutShort (.inl rfl) (fun v t hv => scans_value hv d) hu
            (fun v hv => (hb v hv).fitsAt) (fun v hv t ht => ih ht (hb v hv)) hcut fun heq => hne (by rw [heq])
          exact .inl (by rw [scanValue, herror]; rfl)
    · cases d with
      | zero => exact absurd hb id
      | succ d =>
        intro p hp hne
        obtain rfl | ⟨p, rfl, hcut⟩ := List.prefix_cons_iff.mp hp
        · exact .inl (scanValue_nil _)
        · have herror := scanGroup_cutShort (.inr rfl) (fun m t hm => scans_member (fun v t hv => scans_value hv d) hm)
            hu (fun m hm => (hb m hm).fitsAt)
            (fun m hm t ht => cutShort_member ht (fun u hu => (scans_value (L := L) hu d).opens)
              fun u hu => ih hu (hb m hm)) hcut fun heq => hne (by rw [heq])
          exact .inl (by rw [scanValue, herror]; rfl)

/-- **`json.loads` of the text of a dictionary that is cut off.** -/
theorem jsonLoadsText_cut {members : List (List ℕ × JsonValue)} {t p : List Char} (h : ValueText (.obj members) t)
    (hb : BoundedAt L L.depth (.obj members)) (hp : p <+: t) (hne : p ≠ t) :
    jsonLoadsText L p = .error .syntactic := by
  have hopens := (scans_rawDecode (L := L) h).opens
  obtain ⟨e, he⟩ := (closes_rawDecode (L := L) h).cuts p hp hne
  obtain ⟨n, hn⟩ := h
  obtain hsyntactic | ⟨v, r, hread, -⟩ := cutShort_value hn hb p hp hne
  · rw [jsonLoadsText, hopens.skipSpace_front hp, rawDecode, hsyntactic]
  · exact absurd (hread.symm.trans he) (by rintro ⟨⟩)

end Values

end LocalSqlAgent
