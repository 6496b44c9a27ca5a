import LocalSqlAgent.Lib.JsonText

/-! # The decoder on JSON texts

From the items of a list or a dictionary to every value.

* **`scanGroup_law`**: what follows an opening bracket, when its items are read off their texts.
* **`scans_value`**: the decoder reads every text of a value that is within the interpreter's bounds, raises
  for these alone otherwise, and reads nothing but a shorter number off a text that is cut off.
* **`closes_rawDecode`**, **`jsonLoadsText_text`**: `raw_decode` of a dictionary with anything after it, and
  `json.loads`. -/

namespace LocalSqlAgent

universe u

/-! ## Lists and dictionaries -/

theorem Opens.append {t : List Char} (h : Opens t) (u : List Char) : Opens (t ++ u) := by
  obtain ⟨c, t, rfl, hspace, hclose⟩ := h
  exact ⟨c, t ++ u, rfl, hspace, hclose⟩

/-- A prefix of two texts ends in the first, or goes on in the second. -/
theorem prefix_append_or {p t v : List Char} (h : p <+: t ++ v) :
    (p <+: t ∧ p ≠ t) ∨ ∃ q, p = t ++ q ∧ q <+: v := by
  obtain hp | ⟨q, rfl⟩ := List.prefix_or_prefix_of_prefix h (List.prefix_append t v)
  · by_cases heq : p = t
    · exact .inr ⟨[], by rw [heq, List.append_nil], List.nil_prefix⟩
    · exact .inl ⟨hp, heq⟩
  · exact .inr ⟨q, rfl, (List.prefix_append_right_inj t).mp h⟩

theorem AllSpace.of_front {p w : List Char} (h : AllSpace w) (hp : p <+: w) : AllSpace p :=
  fun c hc => h c (hp.subset hc)

theorem Opens.skipSpace_front {p t : List Char} (h : Opens t) (hp : p <+: t) : skipSpace p = p := by
  obtain ⟨c, t, rfl, hspace, -⟩ := h
  obtain rfl | ⟨p, rfl, -⟩ := List.prefix_cons_iff.mp hp
  · rfl
  · exact skipSpace_cons hspace p

/-- A text that is cut off, without the white space before it. -/
theorem skipSpace_cut {w u q : List Char} (hw : AllSpace w) (hu : Opens u) (h : q <+: w ++ u) (hne : q ≠ w ++ u) :
    ∃ r, r <+: u ∧ r ≠ u ∧ skipSpace q = r := by
  obtain ⟨hspace, -⟩ | ⟨r, rfl, hr⟩ := prefix_append_or h
  · refine ⟨[], List.nil_prefix, ?_, skipSpace_space (hw.of_front hspace)⟩
    obtain ⟨c, u, rfl, -⟩ := hu
    exact (List.cons_ne_nil c u).symm
  · refine ⟨r, hr, fun heq => hne (by rw [heq]), ?_⟩
    rw [skipSpace_append hw, hu.skipSpace_front hr]

theorem Opens.skipSpace {t : List Char} (h : Opens t) : skipSpace t = t := by
  obtain ⟨c, t, rfl, hspace, -⟩ := h
  exact skipSpace_cons hspace t

section Groups

variable {α : Type u} {close : Char} {item : List Char → Decoded α} {itemText : α → List Char → Prop}
  {fits : α → Prop} {as : List α} {u : List Char}

theorem scanItems_succ (n : ℕ) (cs : List Char) : scanItems close item (n + 1) cs =
    match item cs with
    | .error e => .error e
    | .ok (a, after) =>
      match skipSpace after with
      | [] => .error .syntactic
      | c :: rest =>
        if c = close then .ok ([a], rest)
        else if c = ',' then (scanItems close item n (skipSpace rest)).map fun r => (a :: r.1, r.2)
        else .error .syntactic := rfl

variable (close) in
/-- An item that is an error. -/
theorem scanItems_error {cs : List Char} {e : DecodeFailure} (h : item cs = .error e) (n : ℕ) :
    ∃ e', scanItems close item n cs = .error e' ∧ (0 < n → e' = e) := by
  cases n with
  | zero => exact ⟨_, rfl, fun h => absurd h (Nat.lt_irrefl 0)⟩
  | succ n => exact ⟨e, by rw [scanItems_succ, h], fun _ => rfl⟩

/-- An item with neither a comma nor the closing bracket after it. -/
theorem scanItems_stuck {cs after : List Char} {a : α} (h : item cs = .ok (a, after))
    (hstuck : ∀ c ∈ (skipSpace after).head?, c ≠ close ∧ c ≠ ',') (n : ℕ) :
    scanItems close item n cs = .error .syntactic := by
  cases n with
  | zero => rfl
  | succ n =>
    rw [scanItems_succ, h]
    dsimp only
    cases hafter : skipSpace after with
    | nil => rfl
    | cons c rest =>
      rw [hafter] at hstuck
      obtain ⟨hclose, hcomma⟩ := hstuck c rfl
      dsimp only
      rw [if_neg hclose, if_neg hcomma]

theorem scanItems_last {cs after rest : List Char} {a : α} (h : item cs = .ok (a, after))
    (hafter : skipSpace after = close :: rest) (n : ℕ) :
    scanItems close item (n + 1) cs = .ok ([a], rest) := by
  rw [scanItems_succ, h]
  dsimp only
  rw [hafter]
  dsimp only
  rw [if_pos rfl]

theorem scanItems_cons {cs after rest : List Char} {a : α} (hclose : close ≠ ',') (h : item cs = .ok (a, after))
    (hafter : skipSpace after = ',' :: rest) (n : ℕ) :
    scanItems close item (n + 1) cs = (scanItems close item n (skipSpace rest)).map fun r => (a :: r.1, r.2) := by
  rw [scanItems_succ, h]
  dsimp only
  rw [hafter]
  dsimp only
  rw [if_neg (Ne.symm hclose), if_pos rfl]

/-- What follows an item does not go on with a number. -/
theorem numberEnds_close (hclose : isNumberChar close = false) {w : List Char} (hw : AllSpace w) (rest : List Char) :
    NumberEnds (w ++ close :: rest) := numberEnds_append hw (numberEnds_cons hclose rest)

theorem ItemsText.opens (h : ItemsText close itemText as u)
    (hitem : ∀ a t, itemText a t → Scans item (fits a) a t) : Opens u := by
  cases h with
  | last ht _ => exact (hitem _ _ ht).opens.append _
  | cons ht _ _ _ => exact (hitem _ _ ht).opens.append _

/-- An item that is cut off. -/
theorem scanItems_of_cut {cs : List Char} (hclose : isNumberChar close = false)
    (h : (∃ e, item cs = .error e) ∨ ∃ a r, item cs = .ok (a, r) ∧ ∀ c ∈ r, isNumberChar c = true)
    (n : ℕ) : ∃ e, scanItems close item n cs = .error e := by
  obtain ⟨e, he⟩ | ⟨a, r, hread, hr⟩ := h
  · obtain ⟨e', he', -⟩ := scanItems_error close he n
    exact ⟨e', he'⟩
  · refine ⟨.syntactic, scanItems_stuck hread (fun c hc => ?_) n⟩
    have hnumber : isNumberChar c = true :=
      hr c ((List.dropWhile_suffix _).subset (List.mem_of_head? hc))
    constructor
    · rintro rfl
      exact Bool.false_ne_true (hclose.symm.trans hnumber)
    · rintro rfl
      exact absurd hnumber (by decide)

variable (hclose : close = ']' ∨ close = '}') (hitem : ∀ a t, itemText a t → Scans item (fits a) a t)
include hclose hitem

/-- **The items are read off their text.** -/
theorem scanItems_reads (h : ItemsText close itemText as u) (hfits : ∀ a ∈ as, fits a) {n : ℕ}
    (hn : u.length ≤ n) (rest : List Char) : scanItems close item n (u ++ rest) = .ok (as, rest) := by
  have hnumber : isNumberChar close = false := by obtain rfl | rfl := hclose <;> decide
  have hspace : isJsonSpace close = false := by obtain rfl | rfl := hclose <;> decide
  induction h generalizing n with
  | @last a t w ht hw =>
    obtain ⟨n, rfl⟩ : ∃ m, n = m + 1 :=
      ⟨n - 1, by simp only [List.length_append, List.length_cons] at hn; omega⟩
    have hread := (hitem a t ht).reads (w ++ close :: rest) (numberEnds_close hnumber hw rest)
      (hfits a List.mem_cons_self)
    rw [List.append_assoc, List.append_assoc, List.singleton_append]
    exact scanItems_last hread (by rw [skipSpace_append hw, skipSpace_cons hspace]) n
  | @cons a as t w w' u ht hw hw' hu ih =>
    obtain ⟨n, rfl⟩ : ∃ m, n = m + 1 :=
      ⟨n - 1, by simp only [List.length_append, List.length_cons] at hn; omega⟩
    have hread := (hitem a t ht).reads (w ++ ',' :: (w' ++ (u ++ rest))) (numberEnds_close (by decide) hw _)
      (hfits a List.mem_cons_self)
    have hrest := ih (fun b hb => hfits b (List.mem_cons_of_mem _ hb)) (n := n)
      (by simp only [List.length_append, List.length_cons] at hn; omega)
    have hskip : skipSpace (w' ++ (u ++ rest)) = u ++ rest := by
      rw [skipSpace_append hw', ((hu.opens hitem).append rest).skipSpace]
    simp only [List.append_assoc, List.cons_append]
    rw [scanItems_cons (by obtain rfl | rfl := hclose <;> decide) hread
      (by rw [skipSpace_append hw, skipSpace_cons (by decide)]) n, hskip, hrest]
    rfl

/-- An item that does not fit is not read. -/
theorem scanItems_refuses (h : ItemsText close itemText as u) (hfits : ¬ ∀ a ∈ as, fits a) {n : ℕ}
    (hn : u.length ≤ n) (rest : List Char) :
    ∃ e, e ≠ .syntactic ∧ scanItems close item n (u ++ rest) = .error e := by
  have hnumber : isNumberChar close = false := by obtain rfl | rfl := hclose <;> decide
  induction h generalizing n with
  | @last a t w ht hw =>
    obtain ⟨e, hne, he⟩ := (hitem a t ht).refuses (w ++ close :: rest) (numberEnds_close hnumber hw rest)
      fun hfit => hfits (by simpa using hfit)
    rw [List.append_assoc, List.append_assoc, List.singleton_append]
    obtain ⟨e', he', heq⟩ := scanItems_error close he n
    refine ⟨e', ?_, he'⟩
    rw [heq (by simp only [List.length_append, List.length_cons] at hn; omega)]
    exact hne
  | @cons a as t w w' u ht hw hw' hu ih =>
    obtain ⟨n, rfl⟩ : ∃ m, n = m + 1 :=
      ⟨n - 1, by simp only [List.length_append, List.length_cons] at hn; omega⟩
    simp only [List.append_assoc, List.cons_append]
    have hends : NumberEnds (w ++ ',' :: (w' ++ (u ++ rest))) := numberEnds_close (by decide) hw _
    by_cases hfit : fits a
    · have hread := (hitem a t ht).reads _ hends hfit
      have hskip : skipSpace (w' ++ (u ++ rest)) = u ++ rest := by
        rw [skipSpace_append hw', ((hu.opens hitem).append rest).skipSpace]
      obtain ⟨e, hne, he⟩ := ih (fun hall => hfits (List.forall_mem_cons.mpr ⟨hfit, hall⟩)) (n := n)
        (by simp only [List.length_append, List.length_cons] at hn; omega)
      refine ⟨e, hne, ?_⟩
      rw [scanItems_cons (by obtain rfl | rfl := hclose <;> decide) hread
        (by rw [skipSpace_append hw, skipSpace_cons (by decide)]) n, hskip, he]
      rfl
    · obtain ⟨e, hne, he⟩ := (hitem a t ht).refuses _ hends hfit
      obtain ⟨e', he', heq⟩ := scanItems_error close he (n + 1)
      exact ⟨e', by rw [heq (Nat.succ_pos n)]; exact hne, he'⟩

/-- An item with white space after it and nothing more. -/
theorem scanItems_space {a : α} {t q : List Char} (ht : itemText a t) (hq : AllSpace q) (n : ℕ) :
    ∃ e, scanItems close item n (t ++ q) = .error e := by
  have hends : NumberEnds q := by
    have happend := numberEnds_append hq numberEnds_nil
    rwa [List.append_nil] at happend
  by_cases hfit : fits a
  · refine ⟨.syntactic, scanItems_stuck ((hitem a t ht).reads q hends hfit) ?_ n⟩
    rw [skipSpace_space hq]
    rintro _ ⟨⟩
  · obtain ⟨e, -, he⟩ := (hitem a t ht).refuses q hends hfit
    exact scanItems_of_cut (by obtain rfl | rfl := hclose <;> decide) (.inl ⟨e, he⟩) n

/-- **Items that are cut off** are an error. -/
theorem scanItems_cuts (h : ItemsText close itemText as u) {p : List Char} (hp : p <+: u) (hne : p ≠ u) (n : ℕ) :
    ∃ e, scanItems close item n p = .error e := by
  have hnumber : isNumberChar close = false := by obtain rfl | rfl := hclose <;> decide
  induction h generalizing p n with
  | @last a t w ht hw =>
    obtain ⟨hcut, hcutNe⟩ | ⟨q, rfl, hq⟩ := prefix_append_or hp
    · exact scanItems_of_cut hnumber ((hitem a t ht).cuts p hcut hcutNe) n
    · obtain rfl | hspace := List.prefix_concat_iff.mp hq
      · exact absurd rfl hne
      · exact scanItems_space hclose hitem ht (hw.of_front hspace) n
  | @cons a as t w w' u ht hw hw' hu ih =>
    obtain ⟨hcut, hcutNe⟩ | ⟨q, rfl, hq⟩ := prefix_append_or hp
    · exact scanItems_of_cut hnumber ((hitem a t ht).cuts p hcut hcutNe) n
    obtain ⟨hspace, -⟩ | ⟨q, rfl, hcomma⟩ := prefix_append_or hq
    · exact scanItems_space hclose hitem ht (hw.of_front hspace) n
    obtain rfl | ⟨q, rfl, hrest⟩ := List.prefix_cons_iff.mp hcomma
    · rw [List.append_nil]
      exact scanItems_space hclose hitem ht hw n
    -- the comma is there: the next items are cut off, or all missing
    obtain ⟨r, hr, hrne, hskip⟩ := skipSpace_cut hw' (hu.opens hitem) hrest fun heq => hne (by rw [heq])
    have hends : NumberEnds (w ++ ',' :: q) := numberEnds_close (by decide) hw q
    cases n with
    | zero => exact ⟨_, rfl⟩
    | succ n =>
      by_cases hfit : fits a
      · obtain ⟨e, he⟩ := ih hr hrne n
        refine ⟨e, ?_⟩
        rw [scanItems_cons (by obtain rfl | rfl := hclose <;> decide) ((hitem a t ht).reads _ hends hfit)
          (by rw [skipSpace_append hw, skipSpace_cons (by decide)]) n, hskip, he]
        rfl
      · obtain ⟨e, -, he⟩ := (hitem a t ht).refuses _ hends hfit
        exact scanItems_of_cut hnumber (.inl ⟨e, he⟩) (n + 1)

/-- **What follows an opening bracket** is read off its text, and is an error when it is cut off. -/
theorem scanGroup_law (h : GroupText close itemText as u) :
    (∀ rest, (∀ a ∈ as, fits a) → scanGroup close item (u ++ rest) = .ok (as, rest)) ∧
      (∀ rest, (¬ ∀ a ∈ as, fits a) →
        ∃ e, e ≠ .syntactic ∧ scanGroup close item (u ++ rest) = .error e) ∧
      ∀ p, p <+: u → p ≠ u → ∃ e, scanGroup close item p = .error e := by
  have hspace : isJsonSpace close = false := by obtain rfl | rfl := hclose <;> decide
  cases h with
  | @empty w hw =>
    refine ⟨fun rest _ => ?_, fun _ hfits => absurd (fun a ha => absurd ha List.not_mem_nil) hfits,
      fun p hp hne => ⟨.syntactic, ?_⟩⟩
    · rw [List.append_assoc, List.singleton_append, scanGroup, skipSpace_append hw, skipSpace_cons hspace]
      dsimp only
      rw [if_pos rfl]
    · obtain rfl | hcut := List.prefix_concat_iff.mp hp
      · exact absurd rfl hne
      · rw [scanGroup, skipSpace_space (hw.of_front hcut)]
  | @items as w u hw hu =>
    -- the first item does not look like the closing bracket
    have hgroup : ∀ v, Opens v → scanGroup close item (w ++ v) = scanItems close item v.length v := by
      rintro v ⟨c, v, rfl, hv, hcloses⟩
      have hc : c ≠ close := by
        rintro rfl
        exact hcloses (by obtain rfl | rfl := hclose <;> decide)
      rw [scanGroup, skipSpace_append hw, skipSpace_cons hv]
      dsimp only
      rw [if_neg hc, List.length_cons]
    have hopens := hu.opens hitem
    have hlength : ∀ rest, u.length ≤ (u ++ rest).length := fun rest => by
      rw [List.length_append]
      exact Nat.le_add_right _ _
    refine ⟨fun rest hfits => ?_, fun rest hfits => ?_, fun p hp hne => ?_⟩
    · rw [List.append_assoc, hgroup _ (hopens.append rest)]
      exact scanItems_reads hclose hitem hu hfits (hlength rest) rest
    · rw [List.append_assoc, hgroup _ (hopens.append rest)]
      exact scanItems_refuses hclose hitem hu hfits (hlength rest) rest
    · obtain ⟨hcut, -⟩ | ⟨q, rfl, hq⟩ := prefix_append_or hp
      · exact ⟨.syntactic, by rw [scanGroup, skipSpace_space (hw.of_front hcut)]⟩
      · obtain rfl | hqne := eq_or_ne q []
        · exact ⟨.syntactic, by rw [List.append_nil, scanGroup, skipSpace_space hw]⟩
        · have hqopens : Opens q := by
            obtain ⟨c, u, rfl, hcspace, hcclose⟩ := hopens
            obtain rfl | ⟨q, rfl, -⟩ := List.prefix_cons_iff.mp hq
            · exact absurd rfl hqne
            · exact ⟨c, q, rfl, hcspace, hcclose⟩
          rw [hgroup q hqopens]
          exact scanItems_cuts hclose hitem hu hq (fun heq => hne (by rw [heq])) _

end Groups

/-- **A member** is read off its text. -/
theorem scans_member {value : List Char → Decoded JsonValue} {valueText : JsonValue → List Char → Prop}
    {fits : JsonValue → Prop} (hvalue : ∀ v t, valueText v t → Scans value (fits v) v t)
    {m : List ℕ × JsonValue} {t : List Char} (h : MemberText valueText m t) :
    Scans (scanMember value) (fits m.2) m t := by
  obtain @⟨name, v, s, w, w', u, hs, hw, hw', hu⟩ := h
  have hlaw := hvalue v u hu
  have hmember : ∀ q, scanMember value ('"' :: (s ++ '"' :: (w ++ ':' :: q))) =
      (value (skipSpace q)).map fun r => ((name, r.1), r.2) := by
    intro q
    rw [scanMember, scanString_text hs]
    dsimp only
    rw [skipSpace_append hw, skipSpace_cons (by decide)]
    rfl
  have hrest : ∀ rest, scanMember value ('"' :: (s ++ '"' :: (w ++ ':' :: (w' ++ u))) ++ rest) =
      (value (u ++ rest)).map fun r => ((name, r.1), r.2) := by
    intro rest
    simp only [List.cons_append, List.append_assoc]
    rw [hmember, skipSpace_append hw', (hlaw.opens.append rest).skipSpace]
  refine ⟨⟨'"', _, rfl, by decide, by decide⟩, fun rest hends hfit => ?_,
    fun rest hends hfit => ?_, fun p hp hne => ?_⟩
  · rw [hrest, hlaw.reads rest hends hfit]
    rfl
  · obtain ⟨e, hne, he⟩ := hlaw.refuses rest hends hfit
    exact ⟨e, hne, by rw [hrest, he]; rfl⟩
  · -- the cut is in the name, before the colon, or in the value
    obtain rfl | ⟨p, rfl, hname⟩ := List.prefix_cons_iff.mp hp
    · exact .inl ⟨_, rfl⟩
    obtain ⟨hcut, -⟩ | ⟨q, rfl, hquote⟩ := prefix_append_or hname
    · exact .inl ⟨.syntactic, by rw [scanMember, scanString_cut hs hcut]⟩
    obtain rfl | ⟨q, rfl, hcolon⟩ := List.prefix_cons_iff.mp hquote
    · exact .inl ⟨.syntactic, by rw [List.append_nil, scanMember, scanString_cut hs List.prefix_rfl]⟩
    have hspace : ∀ q, AllSpace q → scanMember value ('"' :: (s ++ '"' :: q)) = .error .syntactic := by
      intro q hq
      rw [scanMember, scanString_text hs]
      dsimp only
      rw [skipSpace_space hq]
    obtain ⟨hcut, -⟩ | ⟨q, rfl, hafter⟩ := prefix_append_or hcolon
    · exact .inl ⟨_, hspace q (hw.of_front hcut)⟩
    obtain rfl | ⟨q, rfl, hval⟩ := List.prefix_cons_iff.mp hafter
    · exact .inl ⟨_, by rw [List.append_nil]; exact hspace w hw⟩
    obtain ⟨r, hr, hrne, hskip⟩ := skipSpace_cut hw' hlaw.opens hval fun heq => hne (by rw [heq])
    rw [hmember, hskip]
    obtain ⟨e, he⟩ | ⟨a, r', hread, hr'⟩ := hlaw.cuts r hr hrne
    · exact .inl ⟨e, by rw [he]; rfl⟩
    · exact .inr ⟨(name, a), r', by rw [hread]; rfl, hr'⟩

/-! ## Values -/

section Values

variable {L : DecodeLimits}

/-- Without an opening bracket it is a scalar. -/
theorem scanValue_scalar {cs : List Char} (h : ∀ c ∈ cs.head?, c ≠ '[' ∧ c ≠ '{') (d : ℕ) :
    scanValue L d cs = scanScalar L cs := by
  cases cs with
  | nil => cases d <;> rfl
  | cons c cs =>
    obtain ⟨hlist, hdict⟩ := h c rfl
    have hno : ∀ b, b = '[' ∨ b = '{' → ∀ rest, c :: cs ≠ b :: rest := by
      rintro b hb rest heq
      obtain rfl : c = b := List.head_eq_of_cons_eq heq
      exact hb.elim hlist hdict
    cases d <;>
    · rw [scanValue]
      · exact fun rest _ heq => hno '[' (.inl rfl) rest heq
      · exact fun rest _ heq => hno '{' (.inr rfl) rest heq
      · exact fun _ rest _ heq => hno '[' (.inl rfl) rest heq
      · exact fun _ rest _ heq => hno '{' (.inr rfl) rest heq

/-- No scalar starts with a bracket. -/
theorem ScalarText.head {v : JsonValue} {t : List Char} (h : ScalarText v t) :
    ∃ c u, t = c :: u ∧ c ≠ '[' ∧ c ≠ '{' := by
  cases h with
  | null => exact ⟨_, _, rfl, by decide, by decide⟩
  | true => exact ⟨_, _, rfl, by decide, by decide⟩
  | false => exact ⟨_, _, rfl, by decide, by decide⟩
  | @number i x hi hx =>
    obtain ⟨c, u, rfl, hc⟩ | ⟨c, u, rfl, hc⟩ := hi.head
    · refine ⟨c, u ++ x, rfl, ?_, ?_⟩ <;>
      · rintro rfl
        exact absurd hc (by decide)
    · exact ⟨_, _, rfl, by decide, by decide⟩
  | str _ => exact ⟨_, _, rfl, by decide, by decide⟩

theorem scans_value_scalar {v : JsonValue} {t : List Char} (h : ScalarText v t) (d : ℕ) :
    Scans (scanValue L d) (FitsAt L d v) v t := by
  have hlaw := scans_scalar (L := L) (d := d) h
  obtain ⟨c, u, rfl, hlist, hdict⟩ := h.head
  have hscalar : ∀ cs, scanValue L d (c :: cs) = scanScalar L (c :: cs) := fun cs =>
    scanValue_scalar (by rintro _ ⟨⟩; exact ⟨hlist, hdict⟩) d
  refine ⟨hlaw.opens, fun rest hends hfit => ?_, fun rest hends hfit => ?_, fun p hp hne => ?_⟩
  · exact (hscalar _).trans (hlaw.reads rest hends hfit)
  · obtain ⟨e, hne, he⟩ := hlaw.refuses rest hends hfit
    exact ⟨e, hne, (hscalar _).trans he⟩
  · have hsame : scanValue L d p = scanScalar L p := by
      obtain rfl | ⟨p, rfl, -⟩ := List.prefix_cons_iff.mp hp
      · exact scanValue_scalar (by rintro _ ⟨⟩) d
      · exact hscalar p
    rw [hsame]
    exact hlaw.cuts p hp hne

/-- **A text that closes**, a list's or a dictionary's: it is read whatever follows it. -/
structure Closes {α : Type u} (item : List Char → Decoded α) (fits : Prop) (a : α) (t : List Char) : Prop where
  reads : ∀ rest, fits → item (t ++ rest) = .ok (a, rest)
  refuses : ∀ rest, ¬ fits → ∃ e, e ≠ .syntactic ∧ item (t ++ rest) = .error e
  cuts : ∀ p, p <+: t → p ≠ t → ∃ e, item p = .error e

omit L in
theorem Closes.scans {α : Type u} {item : List Char → Decoded α} {fits : Prop} {a : α} {t : List Char}
    (h : Closes item fits a t) (hopens : Opens t) : Scans item fits a t :=
  ⟨hopens, fun rest _ => h.reads rest, fun rest _ => h.refuses rest, fun p hp hne => .inl (h.cuts p hp hne)⟩

theorem scanValue_nil (d : ℕ) : scanValue L d [] = .error .syntactic := by cases d <;> rfl

section Brackets

variable {text : JsonValue → List Char → Prop} {u : List Char}
  (hitem : ∀ d v t, text v t → Scans (scanValue L d) (FitsAt L d v) v t)
include hitem

theorem closes_list {items : List JsonValue} (hu : GroupText ']' text items u) (d : ℕ) :
    Closes (scanValue L d) (FitsAt L d (.arr items)) (.arr items) ('[' :: u) := by
  cases d with
  | zero =>
    refine ⟨fun _ hfit => absurd hfit id, fun _ _ => ⟨.recursion, by decide, rfl⟩, fun p hp _ => ?_⟩
    obtain rfl | ⟨p, rfl, -⟩ := List.prefix_cons_iff.mp hp
    · exact ⟨_, scanValue_nil 0⟩
    · exact ⟨_, rfl⟩
  | succ d =>
    obtain ⟨hreads, hrefuses, hcuts⟩ := scanGroup_law (.inl rfl) (hitem d) hu
    refine ⟨fun rest hfit => ?_, fun rest hfit => ?_, fun p hp hne => ?_⟩
    · rw [List.cons_append, scanValue, hreads rest hfit]
      rfl
    · obtain ⟨e, hne, he⟩ := hrefuses rest hfit
      exact ⟨e, hne, by rw [List.cons_append, scanValue, he]; rfl⟩
    · obtain rfl | ⟨p, rfl, hcut⟩ := List.prefix_cons_iff.mp hp
      · exact ⟨_, scanValue_nil _⟩
      · obtain ⟨e, he⟩ := hcuts p hcut fun heq => hne (by rw [heq])
        exact ⟨e, by rw [scanValue, he]; rfl⟩

theorem closes_dict {members : List (List ℕ × JsonValue)}
    (hu : GroupText '}' (MemberText text) members u) (d : ℕ) :
    Closes (scanValue L d) (FitsAt L d (.obj members)) (.obj members) ('{' :: u) := by
  cases d with
  | zero =>
    refine ⟨fun _ hfit => absurd hfit id, fun _ _ => ⟨.recursion, by decide, rfl⟩, fun p hp _ => ?_⟩
    obtain rfl | ⟨p, rfl, -⟩ := List.prefix_cons_iff.mp hp
    · exact ⟨_, scanValue_nil 0⟩
    · exact ⟨_, rfl⟩
  | succ d =>
    obtain ⟨hreads, hrefuses, hcuts⟩ := scanGroup_law (.inr rfl) (fun m t hm => scans_member (hitem d) hm) hu
    refine ⟨fun rest hfit => ?_, fun rest hfit => ?_, fun p hp hne => ?_⟩
    · rw [List.cons_append, scanValue, hreads rest hfit]
      rfl
    · obtain ⟨e, hne, he⟩ := hrefuses rest hfit
      exact ⟨e, hne, by rw [List.cons_append, scanValue, he]; rfl⟩
    · obtain rfl | ⟨p, rfl, hcut⟩ := List.prefix_cons_iff.mp hp
      · exact ⟨_, scanValue_nil _⟩
      · obtain ⟨e, he⟩ := hcuts p hcut fun heq => hne (by rw [heq])
        exact ⟨e, by rw [scanValue, he]; rfl⟩

end Brackets

/-- **The decoder reads every text of a value that is within the bounds**, refuses the text of any other for
these alone, and reads nothing but a shorter number off a text that is cut off. -/
theorem scans_value {n : ℕ} {v : JsonValue} {t : List Char} (h : ValueTextAt n v t) (d : ℕ) :
    Scans (scanValue L d) (FitsAt L d v) v t := by
  induction n generalizing v t d with
  | zero => exact scans_value_scalar h d
  | succ n ih =>
    obtain h | ⟨items, u, rfl, rfl, hu⟩ | ⟨members, u, rfl, rfl, hu⟩ := h
    · exact scans_value_scalar h d
    · exact (closes_list (fun d v t hv => ih hv d) hu d).scans ⟨'[', u, rfl, by decide, by decide⟩
    · exact (closes_dict (fun d v t hv => ih hv d) hu d).scans ⟨'{', u, rfl, by decide, by decide⟩

/-- **`raw_decode` of a text of a value.** -/
theorem scans_rawDecode {v : JsonValue} {t : List Char} (h : ValueText v t) :
    Scans (rawDecode L) (FitsAt L L.depth v) v t := by
  obtain ⟨n, hn⟩ := h
  exact scans_value hn L.depth

/-- **`raw_decode` of the text of a dictionary**, whatever follows. -/
theorem closes_rawDecode {members : List (List ℕ × JsonValue)} {t : List Char} (h : ValueText (.obj members) t) :
    Closes (rawDecode L) (FitsAt L L.depth (.obj members)) (.obj members) t := by
  obtain ⟨n, hn⟩ := h
  cases n with
  | zero => cases hn
  | succ n =>
    obtain hn | ⟨_, _, heq, -⟩ | ⟨_, u, heq, rfl, hu⟩ := hn
    · cases hn
    · cases heq
    · cases heq
      exact closes_dict (fun d v t hv => scans_value hv d) hu L.depth

omit L in
/-- A group ends with its closing bracket. -/
theorem GroupText.closes {α : Type u} {close : Char} {item : α → List Char → Prop} {as : List α} {u : List Char}
    (h : GroupText close item as u) : ∃ v, u = v ++ [close] := by
  cases h with
  | @empty w _ => exact ⟨w, rfl⟩
  | @items _ w u _ hu =>
    obtain ⟨v, rfl⟩ : ∃ v, u = v ++ [close] := by
      induction hu with
      | @last _ t w _ _ => exact ⟨t ++ w, by rw [List.append_assoc]⟩
      | @cons _ _ t w w' u _ _ _ _ ih =>
        obtain ⟨v, rfl⟩ := ih
        exact ⟨t ++ (w ++ ',' :: (w' ++ v)), by simp⟩
    exact ⟨w ++ v, by rw [List.append_assoc]⟩

omit L in
/-- The text of a dictionary is between braces. -/
theorem dict_text {members : List (List ℕ × JsonValue)} {t : List Char} (h : ValueText (.obj members) t) :
    ∃ u, t = '{' :: (u ++ ['}']) := by
  obtain ⟨n, hn⟩ := h
  cases n with
  | zero => cases hn
  | succ n =>
    obtain hn | ⟨_, _, heq, -⟩ | ⟨_, u, heq, rfl, hu⟩ := hn
    · cases hn
    · cases heq
    · obtain ⟨v, rfl⟩ := hu.closes
      exact ⟨v, rfl⟩

/-- **`json.loads` of a text of a value**, with white space around it. -/
theorem jsonLoadsText_text {v : JsonValue} {t w w' : List Char} (h : ValueText v t) (hw : AllSpace w)
    (hw' : AllSpace w') (hfits : FitsAt L L.depth v) : jsonLoadsText L (w ++ (t ++ w')) = .ok v := by
  have hlaw := scans_rawDecode (L := L) h
  have hends : NumberEnds w' := by
    have happend := numberEnds_append hw' numberEnds_nil
    rwa [List.append_nil] at happend
  rw [jsonLoadsText, skipSpace_append hw, (hlaw.opens.append w').skipSpace, hlaw.reads w' hends hfits]
  dsimp only
  rw [skipSpace_space hw', if_pos rfl]

/-- `json.loads` of a text of a value alone. -/
theorem jsonLoadsText_bare {v : JsonValue} {t : List Char} (h : ValueText v t) (hfits : FitsAt L L.depth v) :
    jsonLoadsText L t = .ok v := by
  have hspace : AllSpace ([] : List Char) := List.forall_mem_nil _
  have hloads := jsonLoadsText_text h hspace hspace hfits
  rwa [List.nil_append, List.append_nil] at hloads

end Values

end LocalSqlAgent
