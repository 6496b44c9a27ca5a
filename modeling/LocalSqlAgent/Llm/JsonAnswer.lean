import LocalSqlAgent.Lib.JsonAccepted
import LocalSqlAgent.Security.CleanSql

/-! # The JSON in a model's answer

`llm.providers.parse_json_response` takes a JSON value out of an answer: the text of the first markdown fence if
there is one, from its first brace or bracket on, up to where the value ends.

* **`stripFences`**, **`findJsonSubstring`**, **`parseJsonResponse`**: the three steps.
* **`parseCleaned_around`**: behind text without a brace or a bracket, the decoder reads the dictionary.
* **`parseJsonResponse_wrapped_iff`**: of an answer around the text of a dictionary, bare or in a fence, the
  function returns the dictionary exactly when no fence is mistaken for another: the fence is looked for before
  the JSON is parsed. -/

namespace LocalSqlAgent

/-! ## The function -/

/-- `_FENCE_RE` at one place: its group. -/
def jsonFence (cs : List Char) : Option (List Char) :=
  if ticks.isPrefixOf cs then
    let rest := cs.drop 3
    (beforeTicks (lstrip ((afterLetters ['j', 's', 'o', 'n'] rest).getD rest))).map rstrip
  else none

/-- `_FENCE_RE.search`: the group of the first match. -/
def firstFence (text : List Char) : Option (List Char) := searchFrom (fun _ => jsonFence) none text

/-- `_strip_fences`. -/
def stripFences (text : List Char) : List Char :=
  match firstFence text with
  | some group => strip group
  | none => strip text

/-- An opening brace or bracket. -/
def opensJson (c : Char) : Bool := c = '{' || c = '['

/-- `_find_json_substring`; `none` is its `ValueError`. -/
def findJsonSubstring (text : List Char) : Option (List Char) :=
  match text.dropWhile fun c => !opensJson c with
  | [] => none
  | c :: rest => some (c :: rest)

/-- What `parse_json_response` raises. -/
inductive AnswerFailure where
  /-- `ValueError`: no JSON, with the first 200 characters of the text. -/
  | noJson (head : List Char)
  /-- `ValueError`: no value at the first brace or bracket, with the first 200 characters from there. -/
  | parseError (head : List Char)
  /-- What the decoder raises beyond `JSONDecodeError`. -/
  | bound (e : DecodeFailure)
  deriving DecidableEq, Repr

/-- The steps behind `_strip_fences`. -/
def parseCleaned (L : DecodeLimits) (cleaned : List Char) : Except AnswerFailure JsonValue :=
  match findJsonSubstring cleaned with
  | none => .error (.noJson (cleaned.take 200))
  | some json =>
    match rawDecode L json with
    | .ok (v, _) => .ok v
    | .error .syntactic => .error (.parseError (json.take 200))
    | .error e => .error (.bound e)

/-- **`parse_json_response`.** -/
def parseJsonResponse (L : DecodeLimits) (text : List Char) : Except AnswerFailure JsonValue :=
  parseCleaned L (stripFences text)

/-! ## Stripping -/

section Strip

variable {c : Char} {p x r : List Char}

theorem lstrip_append_cons (hc : isPySpace c = false) (p r : List Char) :
    lstrip (p ++ c :: r) = lstrip p ++ c :: r := by
  unfold lstrip
  induction p with
  | nil => exact List.dropWhile_cons_of_neg (by rw [hc]; exact Bool.false_ne_true)
  | cons d p ih =>
    rw [List.cons_append, List.dropWhile_cons, List.dropWhile_cons]
    split
    · exact ih
    · rfl

theorem rstrip_append_cons (hc : isPySpace c = false) (x r : List Char) :
    rstrip (x ++ c :: r) = x ++ c :: rstrip r := by
  have hreverse : (x ++ c :: r).reverse = r.reverse ++ c :: x.reverse := by simp
  have hstrip := lstrip_append_cons hc r.reverse x.reverse
  unfold rstrip
  rw [hreverse]
  unfold lstrip at hstrip
  rw [hstrip]
  simp

theorem rstrip_front (cs : List Char) : rstrip cs <+: cs := by
  unfold rstrip
  have hsuffix := List.reverse_prefix.mpr (List.dropWhile_suffix (l := cs.reverse) isPySpace)
  rwa [List.reverse_reverse] at hsuffix

theorem lstrip_suffix (cs : List Char) : lstrip cs <:+ cs := List.dropWhile_suffix _

theorem isPySpace_of_number {c : Char} (h : isNumberChar c = true) : isPySpace c = false := by
  unfold isNumberChar at h
  rw [Bool.or_eq_true] at h
  obtain h | h := h
  · unfold isDecimalDigit at h
    unfold isPySpace
    simp only [Bool.and_eq_true, decide_eq_true_eq] at h
    simp only [Bool.or_eq_false_iff, Bool.and_eq_false_iff, decide_eq_false_iff_not]
    omega
  · simp only [List.contains_cons, List.contains_nil, Bool.or_false, Bool.or_eq_true, beq_iff_eq] at h
    obtain rfl | rfl | rfl | rfl | rfl := h <;> decide

/-- A text that neither starts nor ends with white space. -/
def Tight (t : List Char) : Prop :=
  (∃ c u, t = c :: u ∧ isPySpace c = false) ∧ ∃ u c, t = u ++ [c] ∧ isPySpace c = false

theorem Tight.of_all {t : List Char} (hne : t ≠ []) (h : ∀ c ∈ t, isPySpace c = false) : Tight t := by
  refine ⟨?_, t.dropLast, t.getLast hne, (List.dropLast_append_getLast hne).symm, h _ (List.getLast_mem hne)⟩
  obtain ⟨c, u, rfl⟩ := List.exists_cons_of_ne_nil hne
  exact ⟨c, u, rfl, h c List.mem_cons_self⟩

theorem Tight.of_ends {c d : Char} {u : List Char} (hc : isPySpace c = false) (hd : isPySpace d = false) :
    Tight (c :: (u ++ [d])) := ⟨⟨c, u ++ [d], rfl, hc⟩, c :: u, d, rfl, hd⟩

/-- **The texts of values are tight.** -/
theorem ValueText.tight {v : JsonValue} {t : List Char} (h : ValueText v t) : Tight t := by
  have hscalar : ScalarText v t → Tight t := by
    intro hs
    cases hs with
    | null => exact .of_all (by decide) (forall_mem_of_all (by decide))
    | true => exact .of_all (by decide) (forall_mem_of_all (by decide))
    | false => exact .of_all (by decide) (forall_mem_of_all (by decide))
    | number hi hx =>
      refine .of_all ?_ fun c hc => isPySpace_of_number (number_isNumberChar hi hx c hc)
      obtain ⟨c, u, rfl, -⟩ | ⟨c, u, rfl, -⟩ := hi.head
      · exact List.cons_ne_nil _ _
      · exact List.cons_ne_nil _ _
    | str _ => exact .of_ends (by decide) (by decide)
  obtain ⟨n, hn⟩ := h
  cases n with
  | zero => exact hscalar hn
  | succ n =>
    obtain hn | ⟨_, u, -, rfl, hu⟩ | ⟨_, u, -, rfl, hu⟩ := hn
    · exact hscalar hn
    · obtain ⟨v, rfl⟩ := hu.closes
      exact .of_ends (by decide) (by decide)
    · obtain ⟨v, rfl⟩ := hu.closes
      exact .of_ends (by decide) (by decide)

/-- White space at the end is not in a tight text before it. -/
theorem rstrip_tight {t : List Char} (h : Tight t) (y z : List Char) : rstrip (y ++ (t ++ z)) = y ++ (t ++ rstrip z) := by
  obtain ⟨-, u, c, rfl, hc⟩ := h
  have hsplit : ∀ z, y ++ (u ++ [c] ++ z) = (y ++ u) ++ c :: z := fun z => by simp
  rw [hsplit, hsplit, rstrip_append_cons hc]

end Strip

/-! ## Fences -/

section Fences

variable {p t r : List Char}

theorem ticks_front {c : Char} {cs : List Char} (h : ticks.isPrefixOf (c :: cs) = true) : c = '`' := by
  have hpre : ticks <+: c :: cs := List.isPrefixOf_iff_prefix.mp h
  exact (List.cons_prefix_cons.mp hpre).1.symm

theorem beforeTicks_cons {c : Char} (hc : c ≠ '`') (cs : List Char) :
    beforeTicks (c :: cs) = (beforeTicks cs).map (c :: ·) := by
  rw [beforeTicks, if_neg fun h => hc (ticks_front h)]

/-- Text without a back quote is before the next fence. -/
theorem beforeTicks_append (hp : '`' ∉ p) (r : List Char) :
    beforeTicks (p ++ r) = (beforeTicks r).map (p ++ ·) := by
  induction p with
  | nil => simp
  | cons c p ih =>
    obtain ⟨hc, hrest⟩ := not_or.mp (mt List.mem_cons.mpr hp)
    rw [List.cons_append, beforeTicks_cons (Ne.symm hc), ih hrest, Option.map_map]
    rfl

theorem beforeTicks_ticks (r : List Char) : beforeTicks (ticks ++ r) = some [] := by
  have hpre : ticks.isPrefixOf (ticks ++ r) = true := List.isPrefixOf_iff_prefix.mpr ⟨r, rfl⟩
  show beforeTicks ('`' :: ('`' :: '`' :: r)) = some []
  rw [beforeTicks]
  exact if_pos hpre

/-- **Text without a fence**, ending with no back quote. -/
theorem beforeTicks_whole {c : Char} (hc : c ≠ '`') (hp : ¬ ticks <:+: p) (r : List Char) :
    beforeTicks (p ++ c :: r) = (beforeTicks r).map (p ++ c :: ·) := by
  induction p with
  | nil => exact beforeTicks_cons hc r
  | cons d p ih =>
    have htail : ¬ ticks <:+: p := fun h => hp (h.trans (List.suffix_cons d p).isInfix)
    have hnone : ¬ ticks.isPrefixOf (d :: (p ++ c :: r)) = true := by
      intro h
      obtain ⟨hcut, -⟩ | ⟨q, hq, hnext⟩ := prefix_append_or (t := d :: p) (List.isPrefixOf_iff_prefix.mp h)
      · exact hp hcut.isInfix
      · obtain rfl | ⟨q, rfl, -⟩ := List.prefix_cons_iff.mp hnext
        · rw [List.append_nil] at hq
          exact hp (hq ▸ List.infix_rfl)
        · have hmem : c ∈ ticks := by
            rw [hq]
            exact List.mem_append_right _ List.mem_cons_self
          exact hc (by simpa [ticks] using hmem)
    rw [List.cons_append, beforeTicks, if_neg hnone, ih htail, Option.map_map]
    rfl

/-- **Text with a fence in it** is cut off there. -/
theorem beforeTicks_cut (ht : ticks <:+: t) (r : List Char) :
    ∃ q, beforeTicks (t ++ r) = some q ∧ q <+: t ∧ q ≠ t := by
  induction t with
  | nil => exact absurd (List.infix_nil.mp ht) (by decide)
  | cons c t ih =>
    rw [List.cons_append, beforeTicks]
    split
    · exact ⟨[], rfl, List.nil_prefix, (List.cons_ne_nil c t).symm⟩
    · rename_i hnone
      have htail : ticks <:+: t := by
        obtain hpre | htail := List.infix_cons_iff.mp ht
        · exact absurd (List.isPrefixOf_iff_prefix.mpr (hpre.trans (List.prefix_append (c :: t) r))) hnone
        · exact htail
      obtain ⟨q, hq, hpre, hne⟩ := ih htail
      exact ⟨c :: q, by rw [hq]; rfl, List.cons_prefix_cons.mpr ⟨rfl, hpre⟩, fun heq => hne (List.cons.inj heq).2⟩

/-- No fence starts in text without a back quote. -/
theorem firstFence_append (hp : '`' ∉ p) (cs : List Char) : firstFence (p ++ cs) = firstFence cs := by
  have hany : ∀ b cs, searchFrom (fun _ : Option Char => jsonFence) b cs = firstFence cs := fun b cs => by
    cases cs <;> rfl
  induction p with
  | nil => rfl
  | cons c p ih =>
    obtain ⟨hc, hrest⟩ := not_or.mp (mt List.mem_cons.mpr hp)
    have hnone : jsonFence (c :: (p ++ cs)) = none := if_neg fun h => hc (ticks_front h).symm
    rw [List.cons_append, firstFence, searchFrom_cons, hnone, Option.none_or, hany, ih hrest]

end Fences

/-! ## The text around the JSON -/

/-- Text without a brace, a bracket or a back quote. -/
def Plain (p : List Char) : Prop := ∀ c ∈ p, c ∉ ['{', '}', '[', ']', '`']

theorem Plain.of_subset {p q : List Char} (h : Plain p) (hq : q ⊆ p) : Plain q := fun c hc => h c (hq hc)

theorem Plain.noTicks {p : List Char} (h : Plain p) : '`' ∉ p := fun hmem => h _ hmem (by decide)

theorem findJson_plain {p : List Char} (hp : Plain p) (cs : List Char) :
    findJsonSubstring (p ++ cs) = findJsonSubstring cs := by
  have hdrop : (p ++ cs).dropWhile (fun c => !opensJson c) = cs.dropWhile fun c => !opensJson c := by
    refine List.dropWhile_append_of_pos fun c hc => ?_
    have hc := hp c hc
    simp only [List.mem_cons, List.not_mem_nil, or_false, not_or] at hc
    unfold opensJson
    rw [decide_eq_false hc.1, decide_eq_false hc.2.2.1]
    rfl
  unfold findJsonSubstring
  rw [hdrop]

theorem findJson_brace (r : List Char) : findJsonSubstring ('{' :: r) = some ('{' :: r) := rfl

section Around

variable {L : DecodeLimits} {members : List (List ℕ × JsonValue)} {t p : List Char}

/-- **Behind plain text** the dictionary is read, whatever follows it, unless it is beyond the bounds. -/
theorem parseCleaned_around (h : ValueText (.obj members) t) (hp : Plain p) (r : List Char) :
    parseCleaned L (strip (p ++ (t ++ r))) = .ok (.obj members) ↔ FitsAt L L.depth (.obj members) := by
  have hlaw := closes_rawDecode (L := L) h
  obtain ⟨u, hu⟩ := dict_text h
  have hstrip : strip (p ++ (t ++ r)) = lstrip p ++ (t ++ rstrip r) := by
    rw [hu, strip]
    simp only [List.cons_append, List.append_assoc, List.nil_append]
    rw [lstrip_append_cons (by decide), ← List.cons_append, ← List.append_assoc,
      rstrip_append_cons (by decide)]
    simp
  have hfind : findJsonSubstring (strip (p ++ (t ++ r))) = some (t ++ rstrip r) := by
    rw [hstrip, findJson_plain (hp.of_subset (lstrip_suffix p).subset), hu, List.cons_append, findJson_brace]
  unfold parseCleaned
  rw [hfind]
  dsimp only
  constructor
  · intro hok
    by_contra hfits
    obtain ⟨e, -, he⟩ := hlaw.refuses (rstrip r) hfits
    rw [he] at hok
    cases e <;> cases hok
  · intro hfits
    rw [hlaw.reads (rstrip r) hfits]

/-- **A dictionary that is cut off** is not read. -/
theorem parseCleaned_cut (h : ValueText (.obj members) t) (hp : Plain p) {q : List Char} (hq : q <+: t) (hne : q ≠ t)
    (v : JsonValue) : parseCleaned L (strip (p ++ q)) ≠ .ok v := by
  have hnone : ∀ s, findJsonSubstring s = none → parseCleaned L s ≠ .ok v := by
    intro s hs hok
    rw [parseCleaned, hs] at hok
    cases hok
  have hcut : ∀ s, Plain s → ∀ q', q' <+: t → q' ≠ t → parseCleaned L (s ++ q') ≠ .ok v := by
    intro s hs q' hq' hne'
    obtain ⟨u, hu⟩ := dict_text h
    obtain rfl | ⟨w, hw, -⟩ := List.prefix_cons_iff.mp (hu ▸ hq')
    · exact hnone _ (findJson_plain hs [])
    · obtain ⟨e, he⟩ := (closes_rawDecode (L := L) h).cuts q' hq' hne'
      have hfind : findJsonSubstring (s ++ q') = some q' := by
        rw [findJson_plain hs, hw, findJson_brace]
      intro hok
      rw [parseCleaned, hfind] at hok
      dsimp only at hok
      rw [he] at hok
      cases e <;> cases hok
  -- what is left of the text is a prefix of the plain part, or goes on in the dictionary
  have hleft : lstrip (p ++ q) = lstrip p ++ q := by
    obtain ⟨u, hu⟩ := dict_text h
    obtain rfl | ⟨w, rfl, -⟩ := List.prefix_cons_iff.mp (hu ▸ hq)
    · rw [List.append_nil, List.append_nil]
    · exact lstrip_append_cons (by decide) p w
  have hpre : strip (p ++ q) <+: lstrip p ++ q := hleft ▸ rstrip_front _
  have hplain : Plain (lstrip p) := hp.of_subset (lstrip_suffix p).subset
  obtain ⟨hfront, -⟩ | ⟨q', heq, hq'⟩ := prefix_append_or hpre
  · have happend := hcut _ (hplain.of_subset hfront.subset) [] List.nil_prefix fun heq => by
      obtain ⟨u, hu⟩ := dict_text h
      exact List.cons_ne_nil _ _ (hu.symm.trans heq.symm)
    rwa [List.append_nil] at happend
  · rw [heq]
    refine hcut _ hplain q' (hq'.trans hq) fun heq => hne ?_
    exact hq.eq_of_length_le (heq ▸ hq'.length_le)

end Around

/-! ## An answer around a dictionary -/

/-- How the JSON stands in an answer: as it is, or in a markdown fence with what follows the opening back quotes
and what precedes the closing ones. -/
inductive Wrapping where
  | bare
  | fenced (opening closing : List Char)
  deriving DecidableEq, Repr

/-- The JSON text as it stands in the answer. -/
def Wrapping.wrap : Wrapping → List Char → List Char
  | .bare, t => t
  | .fenced opening closing, t => ticks ++ (opening ++ (t ++ (closing ++ ticks)))

/-- A fence opens with plain text and closes at its next back quote. -/
def Wrapping.Valid : Wrapping → Prop
  | .bare => True
  | .fenced opening closing => Plain opening ∧ '`' ∉ closing

/-- **No fence is mistaken.** Around the JSON there is no other fence, or another text of the same dictionary is
the first in it; in the JSON there is none. -/
def Undisturbed (members : List (List ℕ × JsonValue)) (t trailing : List Char) : Wrapping → Prop
  | .bare => ∀ group, firstFence (t ++ trailing) = some group →
      ∃ w u r, strip group = w ++ (u ++ r) ∧ (∀ c ∈ w, opensJson c = false) ∧ ValueText (.obj members) u
  | .fenced _ _ => ¬ ticks <:+: t

section Opening

variable {ps o u : List Char}

theorem afterLetters_append_brace (hps : (ps.all fun q => !sameLetter q '{') = true) (o u : List Char) :
    afterLetters ps (o ++ '{' :: u) = (afterLetters ps o).map (· ++ '{' :: u) := by
  induction ps generalizing o with
  | nil => rfl
  | cons q ps ih =>
    rw [List.all_cons, Bool.and_eq_true] at hps
    have hbrace : ¬ sameLetter q '{' = true := fun hsame => by rw [hsame] at hps; cases hps.1
    cases o with
    | nil => exact if_neg hbrace
    | cons c o =>
      rw [List.cons_append, afterLetters, afterLetters]
      split
      · exact ih hps.2 o
      · rfl

theorem afterLetters_suffix {r : List Char} (h : afterLetters ps o = some r) : r <:+ o := by
  induction ps generalizing o with
  | nil =>
    cases h
    exact List.suffix_rfl
  | cons q ps ih =>
    cases o with
    | nil => cases h
    | cons c o =>
      rw [afterLetters] at h
      split at h
      · exact (ih h).trans (List.suffix_cons c o)
      · cases h

/-- **Behind the opening of a fence** there is plain text up to the dictionary. -/
theorem jsonFence_opening (ho : Plain o) : ∃ o', Plain o' ∧
    ∀ u, jsonFence (ticks ++ (o ++ '{' :: u)) = (beforeTicks (o' ++ '{' :: u)).map rstrip := by
  have hfence : ∀ rest, jsonFence (ticks ++ rest) =
      (beforeTicks (lstrip ((afterLetters ['j', 's', 'o', 'n'] rest).getD rest))).map rstrip := fun rest =>
    if_pos (List.isPrefixOf_iff_prefix.mpr ⟨rest, rfl⟩)
  have hnoBrace : (['j', 's', 'o', 'n'].all fun q => !sameLetter q '{') = true := by decide
  have hletters := afterLetters_append_brace hnoBrace o
  cases hword : afterLetters ['j', 's', 'o', 'n'] o with
  | none =>
    refine ⟨lstrip o, ho.of_subset (lstrip_suffix o).subset, fun u => ?_⟩
    rw [hfence, hletters, hword, Option.map_none, Option.getD_none, lstrip_append_cons (by decide)]
  | some o' =>
    have hsubset := ((lstrip_suffix o').trans (afterLetters_suffix hword)).subset
    refine ⟨lstrip o', ho.of_subset hsubset, fun u => ?_⟩
    rw [hfence, hletters, hword, Option.map_some, Option.getD_some, lstrip_append_cons (by decide)]

end Opening

section Answers

variable {L : DecodeLimits} {members : List (List ℕ × JsonValue)} {t p : List Char}

/-- What is cut off once more is still cut off. -/
theorem parseCleaned_front (h : ValueText (.obj members) t) (hp : Plain p) {q s : List Char} (hq : q <+: t)
    (hne : q ≠ t) (hs : s <+: p ++ q) (v : JsonValue) : parseCleaned L (strip s) ≠ .ok v := by
  obtain ⟨hfront, -⟩ | ⟨q', rfl, hq'⟩ := prefix_append_or hs
  · have hplain : Plain s := hp.of_subset hfront.subset
    have hempty : ([] : List Char) ≠ t := by
      obtain ⟨u, rfl⟩ := dict_text h
      exact (List.cons_ne_nil _ _).symm
    have hcut := parseCleaned_cut (L := L) h hplain List.nil_prefix hempty v
    rwa [List.append_nil] at hcut
  · refine parseCleaned_cut h hp (hq'.trans hq) (fun heq => hne ?_) v
    exact hq.eq_of_length_le (heq ▸ hq'.length_le)

/-- **In a fence** the dictionary is read when there are no three back quotes in its text. -/
theorem parseJson_fenced {opening closing : List Char} (h : ValueText (.obj members) t) (hp : Plain p)
    (ho : Plain opening) (hc : '`' ∉ closing) (trailing : List Char) :
    parseJsonResponse L (p ++ ((Wrapping.fenced opening closing).wrap t ++ trailing)) = .ok (.obj members) ↔
      FitsAt L L.depth (.obj members) ∧ ¬ ticks <:+: t := by
  obtain ⟨u, hu⟩ := dict_text h
  obtain ⟨o', ho', hfence⟩ := jsonFence_opening ho
  -- the fence is the first one, and its text goes up to the next back quotes
  have hfirst : firstFence (p ++ ((Wrapping.fenced opening closing).wrap t ++ trailing)) =
      (jsonFence (ticks ++ (opening ++ (t ++ (closing ++ (ticks ++ trailing)))))).or
        (searchFrom (fun _ => jsonFence) (some '`')
          ('`' :: '`' :: (opening ++ (t ++ (closing ++ (ticks ++ trailing)))))) := by
    rw [firstFence_append hp.noTicks]
    simp only [Wrapping.wrap, List.append_assoc]
    rfl
  have hgroup : jsonFence (ticks ++ (opening ++ (t ++ (closing ++ (ticks ++ trailing))))) =
      (beforeTicks (t ++ (closing ++ (ticks ++ trailing)))).map fun q => rstrip (o' ++ q) := by
    rw [hu, List.cons_append, hfence, beforeTicks_append ho'.noTicks, Option.map_map]
    rfl
  by_cases hticks : ticks <:+: t
  · obtain ⟨q, hq, hpre, hne⟩ := beforeTicks_cut hticks (closing ++ (ticks ++ trailing))
    have hstrip : stripFences (p ++ ((Wrapping.fenced opening closing).wrap t ++ trailing)) =
        strip (rstrip (o' ++ q)) := by
      rw [stripFences, hfirst, hgroup, hq]
      rfl
    rw [parseJsonResponse, hstrip]
    constructor
    · exact fun hok => absurd hok (parseCleaned_front h ho' hpre hne (rstrip_front _) _)
    · exact fun hright => absurd hticks hright.2
  · have hwhole : beforeTicks (t ++ (closing ++ (ticks ++ trailing))) = some (t ++ closing) := by
      have hfront : ¬ ticks <:+: '{' :: u := fun hmem => hticks (hmem.trans ⟨[], ['}'], by rw [hu]; rfl⟩)
      have hsplit : t ++ (closing ++ (ticks ++ trailing)) =
          ('{' :: u) ++ '}' :: (closing ++ (ticks ++ trailing)) := by
        rw [hu]
        simp
      rw [hsplit, beforeTicks_whole (by decide) hfront, beforeTicks_append hc, beforeTicks_ticks, hu]
      simp
    have hstrip : stripFences (p ++ ((Wrapping.fenced opening closing).wrap t ++ trailing)) =
        strip (o' ++ (t ++ rstrip closing)) := by
      have hright : rstrip (o' ++ (t ++ closing)) = o' ++ (t ++ rstrip closing) := by
        have hend : ∀ x, o' ++ (t ++ x) = (o' ++ '{' :: u) ++ '}' :: x := fun x => by
          rw [hu]
          simp
        rw [hend, hend, rstrip_append_cons (by decide)]
      rw [stripFences, hfirst, hgroup, hwhole, ← hright]
      rfl
    rw [parseJsonResponse, hstrip, parseCleaned_around h ho']
    exact (and_iff_left hticks).symm

/-- What is read is what the decoder makes of the text from the first brace or bracket on. -/
theorem parseCleaned_ok_iff {s : List Char} {v : JsonValue} :
    parseCleaned L s = .ok v ↔ ∃ json rest, findJsonSubstring s = some json ∧ rawDecode L json = .ok (v, rest) := by
  unfold parseCleaned
  cases findJsonSubstring s with
  | none =>
    constructor
    · intro h
      cases h
    · rintro ⟨_, _, h, -⟩
      cases h
  | some json =>
    dsimp only
    cases hread : rawDecode L json with
    | ok a =>
      constructor
      · intro h
        cases h
        exact ⟨json, a.2, rfl, hread⟩
      · rintro ⟨_, _, ⟨⟩, hv⟩
        rw [hread] at hv
        cases hv
        rfl
    | error e =>
      constructor
      · intro h
        cases e <;> cases h
      · rintro ⟨_, _, ⟨⟩, hv⟩
        rw [hread] at hv
        cases hv

/-- **A dictionary is read off a text** when the text has it at its first brace or bracket. -/
theorem parseCleaned_obj_iff (h : ValueText (.obj members) t) (s : List Char) :
    parseCleaned L s = .ok (.obj members) ↔ FitsAt L L.depth (.obj members) ∧
      ∃ w u r, s = w ++ (u ++ r) ∧ (∀ c ∈ w, opensJson c = false) ∧ ValueText (.obj members) u := by
  rw [parseCleaned_ok_iff]
  constructor
  · rintro ⟨json, rest, hfind, hread⟩
    obtain ⟨hfits, u, rfl, hu⟩ := (rawDecode_obj_iff h).mp hread
    refine ⟨hfits, s.takeWhile fun c => !opensJson c, u, rest, ?_, fun c hc => ?_, hu⟩
    · have hdrop : s.dropWhile (fun c => !opensJson c) = u ++ rest := by
        unfold findJsonSubstring at hfind
        split at hfind
        · cases hfind
        · rename_i c r heq
          rw [heq]
          exact Option.some.inj hfind
      rw [← hdrop, List.takeWhile_append_dropWhile]
    · have hnot := List.mem_takeWhile_imp (p := fun c => !opensJson c) hc
      exact Bool.not_eq_true' _ |>.mp hnot
  · rintro ⟨hfits, w, u, r, rfl, hw, hu⟩
    refine ⟨u ++ r, r, ?_, (rawDecode_obj_iff h).mpr ⟨hfits, u, rfl, hu⟩⟩
    obtain ⟨u, rfl⟩ := dict_text hu
    have hdrop : (w ++ ('{' :: (u ++ ['}']) ++ r)).dropWhile (fun c => !opensJson c) = '{' :: (u ++ ['}']) ++ r := by
      rw [List.dropWhile_append_of_pos fun c hc => by rw [hw c hc]; rfl]
      rfl
    unfold findJsonSubstring
    rw [hdrop]
    rfl

/-- **Bare** the dictionary is read when no fence is found, or one around the same dictionary. -/
theorem parseJson_bare (h : ValueText (.obj members) t) (hp : Plain p) (trailing : List Char) :
    parseJsonResponse L (p ++ (t ++ trailing)) = .ok (.obj members) ↔
      FitsAt L L.depth (.obj members) ∧ Undisturbed members t trailing .bare := by
  have hfirst : firstFence (p ++ (t ++ trailing)) = firstFence (t ++ trailing) := firstFence_append hp.noTicks _
  rw [parseJsonResponse, stripFences, hfirst]
  cases hfence : firstFence (t ++ trailing) with
  | none =>
    have hcalm : Undisturbed members t trailing .bare := by
      intro group hgroup
      rw [hfence] at hgroup
      cases hgroup
    exact (parseCleaned_around h hp trailing).trans (and_iff_left hcalm).symm
  | some group =>
    refine (parseCleaned_obj_iff h (strip group)).trans (and_congr_right fun _ => ?_)
    constructor
    · intro hcopy group' hgroup'
      rw [hfence] at hgroup'
      cases hgroup'
      exact hcopy
    · exact fun hcalm => hcalm group hfence

/-- **`parse_json_response` undoes the wrapping** of a dictionary that the decoder has room for exactly when no
fence is mistaken: bare, when no fence is in the text from the dictionary on or the first one has the same
dictionary in it; in a fence, when the dictionary's text has no three back quotes. -/
theorem parseJsonResponse_wrapped_iff (L : DecodeLimits) (members : List (List ℕ × JsonValue)) (t p trailing : List Char)
    (W : Wrapping) (h : ValueText (.obj members) t) (hp : Plain p) (hW : W.Valid) :
    parseJsonResponse L (p ++ (W.wrap t ++ trailing)) = .ok (.obj members) ↔
      FitsAt L L.depth (.obj members) ∧ Undisturbed members t trailing W := by
  cases W with
  | bare => exact parseJson_bare h hp trailing
  | fenced opening closing => exact parseJson_fenced h hp hW.1 hW.2 trailing

end Answers

section Sample

/-- `{"code":"…"}` with a string that needs no escapes. -/
theorem codeText {t : List Char} (h : (t.all fun c => decide (32 ≤ c.toNat ∧ c ≠ '"' ∧ c ≠ '\\')) = true) :
    ValueText (.obj [("code".toList.map Char.toNat, .str (t.map Char.toNat))])
      ("\x7b\"code\":\"".toList ++ (t ++ "\"\x7d".toList)) := by
  have hstring : ValueTextAt 0 (.str (t.map Char.toNat)) ('"' :: (t ++ ['"'])) := .str (stringText_plain h)
  have hdict := valueText_member (stringText_plain (t := "code".toList) (by decide)) hstring
  refine ⟨1, ?_⟩
  simpa using hdict

theorem not_ticks_of_beforeTicks {t : List Char} (h : beforeTicks t = none) : ¬ ticks <:+: t := by
  intro ht
  obtain ⟨q, hq, -⟩ := beforeTicks_cut ht []
  rw [List.append_nil, h] at hq
  cases hq

theorem parseJsonResponse_wrapped_select :
    parseJsonResponse ⟨1000, some 4300⟩ "Here: ```json\n\x7b\"code\":\"SELECT 1\"\x7d\n``` done".toList =
      .ok (.obj [("code".toList.map Char.toNat, .str ("SELECT 1".toList.map Char.toNat))]) := by
  have htext : "Here: ```json\n\x7b\"code\":\"SELECT 1\"\x7d\n``` done".toList = "Here: ".toList ++
      ((Wrapping.fenced "json\n".toList "\n".toList).wrap ("\x7b\"code\":\"".toList ++ ("SELECT 1".toList ++ "\"\x7d".toList)) ++
        " done".toList) := by decide
  have hcalm : ¬ ticks <:+: "\x7b\"code\":\"".toList ++ ("SELECT 1".toList ++ "\"\x7d".toList) :=
    not_ticks_of_beforeTicks (by decide)
  rw [htext]
  exact (parseJsonResponse_wrapped_iff ⟨1000, some 4300⟩ _ _ "Here: ".toList " done".toList
    (.fenced "json\n".toList "\n".toList) (codeText (by decide)) (forall_mem_of_all (by decide))
    ⟨forall_mem_of_all (by decide), by decide⟩).mpr ⟨List.forall_mem_singleton.mpr trivial, hcalm⟩

/-- A fence in a string of the dictionary ends the fence around the dictionary. -/
theorem parseJsonResponse_fence_in_string :
    ¬ ∀ (members : List (List ℕ × JsonValue)) (t p trailing : List Char) (W : Wrapping),
      ValueText (.obj members) t → Plain p → W.Valid →
        parseJsonResponse ⟨1000, some 4300⟩ (p ++ (W.wrap t ++ trailing)) = .ok (.obj members) := by
  intro h
  have hticks : ticks <:+: "\x7b\"code\":\"".toList ++ ("```".toList ++ "\"\x7d".toList) :=
    ⟨"\x7b\"code\":\"".toList, "\"\x7d".toList, by rw [List.append_assoc]; rfl⟩
  have hopening : Plain "json\n".toList := forall_mem_of_all (by decide)
  have htext := codeText (t := "```".toList) (by decide)
  have hok := h _ _ [] [] (.fenced "json\n".toList "\n".toList) htext (List.forall_mem_nil _) ⟨hopening, by decide⟩
  exact ((parseJson_fenced htext (List.forall_mem_nil _) hopening (by decide) []).mp hok).2 hticks

end Sample

end LocalSqlAgent
