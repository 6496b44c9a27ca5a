import LocalSqlAgent.Core.RedactionPatterns

/-! # What a redacted text keeps of a quoted value

Three substitutions run one after another, and quotes are counted over what the first two leave. A quoted
value is hidden where a credential takes its literal whole, or where none takes a quote of it and the number
of quotes left in front is even.

* **`InSecret`**, **`InUserinfo`**, **`LiteralStands`**: the three ways a literal is hidden.
* **`redactErrorText_eq_of_treated`**: two values whose literals are hidden in one way leave one text. -/

namespace LocalSqlAgent

variable {T : CharTable} {b : Option Char} {p v w w' s host : List Char}

/-! ## The ways a literal is hidden -/

/-- Whether the symbol behind `u` stands in a match. -/
def takenAt (find : Finder Char) (text u : List Char) : Option Bool := (dropped find none 0 text)[u.length]?

/-- The text with a literal of an inner text. -/
def around (p w s : List Char) : List Char := p ++ '\'' :: (w ++ '\'' :: s)

/-- **No match takes a quote of the literal.** -/
structure StandsApart (find : Finder Char) (p w s : List Char) : Prop where
  opening : takenAt find (around p w s) p = some false
  closing : takenAt find (around p w s) (p ++ '\'' :: w) = some false

/-- **An ODBC secret takes the literal whole**: one is open in front of it, and the value does not end it. -/
structure InSecret (T : CharTable) (p v : List Char) : Prop where
  opened : takenAt (odbcSecret T) (p ++ ['\'']) p = some true
  value : ∀ c ∈ v, isOdbcValue c = true

/-- **User information takes the literal whole**: a password is open in front of it, an `@` follows, and no `?`
ends it before that. -/
structure InUserinfo (T : CharTable) (p v s : List Char) : Prop where
  apart : StandsApart (odbcSecret T) p (doubled '\'' v) s
  opened : takenAt rawUserinfo (maskOdbc T none p ++ ['\'', '@']) (maskOdbc T none p) = some true
  closed : (afterUserinfo (maskOdbc T (some '\'') s)).isSome = true
  value : '?' ∉ v

/-- **The literal stands**: no credential takes a quote of it, and an even number of quotes is left in front. -/
structure LiteralStands (T : CharTable) (p v s : List Char) : Prop where
  odbc : StandsApart (odbcSecret T) p (doubled '\'' v) s
  userinfo : StandsApart rawUserinfo (maskOdbc T none p) (maskOdbc T (some '\'') (doubled '\'' v))
    (maskOdbc T (some '\'') s)
  even : 2 ∣ (maskUserinfo none (maskOdbc T none p)).count '\''

/-- What hides a literal. -/
inductive Treatment where
  | odbcSecret
  | userinfo
  | literal
  deriving DecidableEq, Repr

/-- The literal is hidden in this way. -/
def TreatedAs (T : CharTable) (p v s : List Char) : Treatment → Prop
  | .odbcSecret => InSecret T p v
  | .userinfo => InUserinfo T p v s
  | .literal => LiteralStands T p v s

/-! ## Literals that stand -/

/-- **Around a literal that no match takes a quote of** the text is replaced in three parts. -/
theorem StandsApart.split {find : Finder Char} (h : StandsApart find p w s) (hends : EndsBefore '\'' find)
    (htakes : TakesSome find) : subAll find none 0 (around p w s) =
      around (subAll find none 0 p) (subAll find (some '\'') 0 w) (subAll find (some '\'') 0 s) := by
  obtain ⟨hfirst, hdropped⟩ := hends.split htakes h.opening
  have hclosing := h.closing
  rw [takenAt, around, hdropped, List.getElem?_append_right, length_dropped, List.length_append,
    Nat.add_sub_cancel_left, List.length_cons, List.getElem?_cons_succ] at hclosing
  · rw [around, hfirst, (hends.split htakes hclosing).1]
    rfl
  · rw [length_dropped, List.length_append]
    exact Nat.le_add_right _ _

/-! ## Literals in a secret -/

theorem odbcSecret_some {x rest new : List Char} (h : odbcSecret T b x = some (new, rest)) :
    ∃ pre value, x = pre ++ value ∧ pre ≠ [] ∧ rest = value.dropWhile isOdbcValue ∧
      ∀ y, odbcSecret T b (x ++ '\'' :: y) = some (new, (value ++ '\'' :: y).dropWhile isOdbcValue) := by
  unfold odbcSecret at h
  split at h
  · rename_i hboundary
    obtain ⟨value, hvalue, hm⟩ := Option.map_eq_some_iff.mp h
    obtain ⟨rfl, rfl⟩ := Prod.mk.inj hm
    obtain ⟨key, sp, hx, -⟩ := secretValue_eq_some hvalue
    refine ⟨key ++ '=' :: sp, value, by rw [hx]; simp, by simp, rfl, fun y => ?_⟩
    rw [odbcSecret_cut, if_pos hboundary, hvalue, Option.map_some]
  · cases h

/-- **A secret that is open in front of a literal** is the same secret whatever the literal's value is. -/
theorem maskOdbc_inSecret (hopened : (dropped (odbcSecret T) b 0 (p ++ ['\'']))[p.length]? = some true)
    (hw : ∀ c ∈ w, isOdbcValue c = true) (hw' : ∀ c ∈ w', isOdbcValue c = true) :
    maskOdbc T b (around p w s) = maskOdbc T b (around p w' s) := by
  -- on the length of what stands in front: a secret that ends in it is passed in one step
  induction hn : p.length using Nat.strongRecOn generalizing b p with
  | _ n ih =>
    cases p with
    | nil =>
      rw [List.nil_append, dropped_pass (odbcSecret_endsBefore.notAt b [])] at hopened
      cases hopened
    | cons c p =>
      rw [List.length_cons] at hn
      cases hfind : odbcSecret T b (c :: p) with
      | none =>
        have hnone : ∀ y, odbcSecret T b (c :: (p ++ '\'' :: y)) = none := by
          intro y
          rw [odbcSecret] at hfind
          rw [← List.cons_append, odbcSecret_cut]
          split at hfind
          · rename_i hboundary
            rw [Option.map_eq_none_iff] at hfind
            rw [if_pos hboundary, hfind]
            rfl
          · rename_i hboundary
            exact if_neg hboundary
        rw [List.cons_append, dropped_pass (hnone []), List.length_cons, List.getElem?_cons_succ] at hopened
        have hrest := ih p.length (by omega) hopened rfl
        unfold around maskOdbc at *
        rw [List.cons_append, List.cons_append, subAll_pass (hnone _), subAll_pass (hnone _), hrest]
      | some m =>
        obtain ⟨pre, value, hp, hne, hrest, hlong⟩ := odbcSecret_some hfind
        by_cases hopen : value.dropWhile isOdbcValue = []
        · have hsame : ∀ z, (∀ c ∈ z, isOdbcValue c = true) → maskOdbc T b (around (c :: p) z s) =
              m.1 ++ subAll (odbcSecret T) ('\'' :: s.takeWhile isOdbcValue).getLast? 0 (s.dropWhile isOdbcValue) := by
            intro z hz
            have hvalue : (value ++ '\'' :: (z ++ '\'' :: s)).dropWhile isOdbcValue = s.dropWhile isOdbcValue := by
              rw [dropWhile_quote odbcSecret_quote, if_pos hopen, List.dropWhile_append_of_pos hz,
                List.dropWhile_cons_of_pos odbcSecret_quote]
            have hsplit : around (c :: p) z s =
                (pre ++ (value ++ '\'' :: z) ++ '\'' :: s.takeWhile isOdbcValue) ++ s.dropWhile isOdbcValue := by
              simp only [around, hp, List.append_assoc, List.cons_append, List.takeWhile_append_dropWhile]
            have hhit := hlong (z ++ '\'' :: s)
            rw [hvalue, ← around, hsplit] at hhit
            rw [maskOdbc, hsplit, subAll_hit (List.append_ne_nil_of_right_ne_nil _ (List.cons_ne_nil _ _)) hhit,
              List.getLast?_append, List.getLast?_cons, Option.some_or]
          rw [hsame w hw, hsame w' hw']
        · have hW : c :: p = (pre ++ value.takeWhile isOdbcValue) ++ value.dropWhile isOdbcValue := by
            rw [hp, List.append_assoc, List.takeWhile_append_dropWhile]
          have hWne : pre ++ value.takeWhile isOdbcValue ≠ [] := List.append_ne_nil_of_left_ne_nil hne _
          have hhit : ∀ y, odbcSecret T b ((pre ++ value.takeWhile isOdbcValue) ++
              (value.dropWhile isOdbcValue ++ '\'' :: y)) = some (m.1, value.dropWhile isOdbcValue ++ '\'' :: y) := by
            intro y
            have hy := hlong y
            rwa [dropWhile_quote odbcSecret_quote, if_neg hopen, hW, List.append_assoc] at hy
          have hlength := congrArg List.length hW
          have hpos := List.length_pos_iff.mpr hWne
          rw [List.length_cons, List.length_append] at hlength
          rw [hW, dropped_behind_hit hWne (hhit [])] at hopened
          have hpast : ∀ z, maskOdbc T b (around (c :: p) z s) = m.1 ++ maskOdbc T
              (pre ++ value.takeWhile isOdbcValue).getLast? (around (value.dropWhile isOdbcValue) z s) := by
            intro z
            rw [maskOdbc, around, hW, List.append_assoc (pre ++ value.takeWhile isOdbcValue), subAll_hit hWne (hhit _)]
            rfl
          rw [hpast, hpast, ih (value.dropWhile isOdbcValue).length (by omega) hopened rfl]

/-! ## Literals in user information -/

theorem afterUserinfo_append (hu : '?' ∉ w) (hs : afterUserinfo s = some host) :
    afterUserinfo (w ++ s) = some host := by
  induction w with
  | nil => exact hs
  | cons c w ih =>
    rw [List.mem_cons, not_or] at hu
    rw [List.cons_append, afterUserinfo, if_neg (Ne.symm hu.1), ih hu.2, Option.some_or]

/-- Behind a `?` no `@` counts. -/
theorem afterUserinfo_ended (hu : '?' ∈ w) : afterUserinfo (w ++ s) = (afterUserinfo w).map (· ++ s) := by
  induction w with
  | nil => exact absurd hu List.not_mem_nil
  | cons c w ih =>
    rw [List.cons_append, afterUserinfo, afterUserinfo]
    by_cases hc : c = '?'
    · rw [if_pos hc, if_pos hc]
      rfl
    · rw [if_neg hc, if_neg hc, ih ((List.mem_cons.mp hu).resolve_left (Ne.symm hc))]
      cases afterUserinfo w with
      | some host => rfl
      | none =>
        split <;> rfl

/-- Without a colon there is no user information. -/
theorem dropped_rawUserinfo (h : ':' ∉ w) (i : ℕ) : (dropped rawUserinfo b 0 w)[i]? ≠ some true := by
  induction w generalizing b i with
  | nil => simp [dropped]
  | cons c w ih =>
    rw [List.mem_cons, not_or] at h
    have hnone : rawUserinfo b (c :: w) = none := by
      rw [rawUserinfo, afterScheme, afterMark, if_neg (Ne.symm h.1)]
      rfl
    rw [dropped_pass hnone]
    cases i with
    | zero => simp
    | succ i => exact ih h.2 i

theorem rawUserinfo_behind (b b' : Option Char) (cs : List Char) : rawUserinfo b cs = rawUserinfo b' cs := rfl

/-- **User information that is open in front of a literal** is the same whatever the literal's value is. -/
theorem maskUserinfo_inUserinfo (hopened : (dropped rawUserinfo b 0 (p ++ ['\'', '@']))[p.length]? = some true)
    (hs : afterUserinfo s = some host) (hw : '?' ∉ w) (hw' : '?' ∉ w') :
    maskUserinfo b (around p w s) = maskUserinfo b (around p w' s) := by
  -- on the length of what stands in front: user information that ends in it is passed in one step
  induction hn : p.length using Nat.strongRecOn generalizing b p with
  | _ n ih =>
    cases p with
    | nil =>
      rw [List.nil_append, dropped_pass (rawUserinfo_endsBefore.notAt b ['@'])] at hopened
      cases hopened
    | cons c p =>
      rw [List.length_cons] at hn
      have hpass : (∀ y, rawUserinfo b (c :: (p ++ '\'' :: y)) = none) →
          maskUserinfo b (around (c :: p) w s) = maskUserinfo b (around (c :: p) w' s) := by
        intro hnone
        rw [List.cons_append, dropped_pass (hnone ['@']), List.length_cons, List.getElem?_cons_succ] at hopened
        have hrest := ih p.length (by omega) hopened rfl
        unfold around maskUserinfo at *
        rw [List.cons_append, List.cons_append, subAll_pass (hnone _), subAll_pass (hnone _), hrest]
      cases hscheme : afterScheme (c :: p) with
      | none => exact hpass fun y => rawUserinfo_noScheme hscheme
      | some behind =>
        have hp := afterScheme_eq_some hscheme
        by_cases huser : behind.dropWhile isUserChar = []
        · -- a user name to the end: no colon is left to open a password
          have hnone : rawUserinfo b (c :: (p ++ ['\'', '@'])) = none := by
            rw [← List.cons_append, rawUserinfo_open hscheme huser]
            rfl
          have hcolon : ':' ∉ behind := fun hmem =>
            absurd (List.dropWhile_eq_nil_iff.mp huser _ hmem) (by decide)
          have hrest : p = '/' :: '/' :: behind := (List.cons_eq_cons.mp hp).2
          rw [List.cons_append, dropped_pass hnone, List.length_cons, List.getElem?_cons_succ] at hopened
          refine absurd hopened (dropped_rawUserinfo ?_ _)
          rw [hrest]
          simpa using hcolon
        · cases hpassword : afterMark ':' (behind.dropWhile isUserChar) with
          | none =>
            refine hpass fun y => ?_
            rw [← List.cons_append, rawUserinfo_cut hscheme huser, hpassword]
            rfl
          | some password =>
            have hcut : ∀ y, rawUserinfo b (c :: p ++ '\'' :: y) = (afterUserinfo (password ++ '\'' :: y)).map fun host =>
                ("://".toList ++ behind.takeWhile isUserChar ++ [':'] ++ (mask ++ ['@']), host) := by
              intro y
              rw [rawUserinfo_cut hscheme huser, hpassword, Option.bind_some]
            by_cases hended : '?' ∈ password
            · cases hhost : afterUserinfo password with
              | none =>
                refine hpass fun y => ?_
                rw [← List.cons_append, hcut, afterUserinfo_ended hended, hhost]
                rfl
              | some rest =>
                obtain ⟨u, hu⟩ := afterUserinfo_eq_some hhost
                have hbehind : behind = behind.takeWhile isUserChar ++ ':' :: (u ++ '@' :: rest) := by
                  rw [← hu, ← afterMark_eq_some hpassword, List.takeWhile_append_dropWhile]
                have hW : ∃ W, c :: p = W ++ rest ∧ W ≠ [] := by
                  refine ⟨"://".toList ++ behind.takeWhile isUserChar ++ [':'] ++ u ++ ['@'], ?_,
                    List.append_ne_nil_of_right_ne_nil _ (List.cons_ne_nil _ _)⟩
                  rw [hp]
                  nth_rewrite 1 [hbehind]
                  simp
                obtain ⟨W, hW, hne⟩ := hW
                have hhit : ∀ y, rawUserinfo b (W ++ (rest ++ '\'' :: y)) =
                    some ("://".toList ++ behind.takeWhile isUserChar ++ [':'] ++ (mask ++ ['@']), rest ++ '\'' :: y) := by
                  intro y
                  rw [← List.append_assoc, ← hW, hcut, afterUserinfo_ended hended, hhost]
                  rfl
                have hlength := congrArg List.length hW
                have hpos := List.length_pos_iff.mpr hne
                rw [List.length_cons, List.length_append] at hlength
                rw [hW, dropped_behind_hit hne (hhit ['@'])] at hopened
                have hpast : ∀ z, maskUserinfo b (around (c :: p) z s) =
                    "://".toList ++ behind.takeWhile isUserChar ++ [':'] ++ (mask ++ ['@']) ++
                      maskUserinfo W.getLast? (around rest z s) := by
                  intro z
                  rw [maskUserinfo, around, hW, List.append_assoc W, subAll_hit hne (hhit _)]
                  rfl
                rw [hpast, hpast, ih rest.length (by omega) hopened rfl]
            · have hsame : ∀ z, '?' ∉ z → maskUserinfo b (around (c :: p) z s) =
                  "://".toList ++ behind.takeWhile isUserChar ++ [':'] ++ (mask ++ ['@']) ++ maskUserinfo none host := by
                intro z hz
                have hinner : '?' ∉ password ++ '\'' :: (z ++ ['\'']) := by simp [hended, hz]
                have hhost := afterUserinfo_append hinner hs
                simp only [List.append_assoc, List.cons_append, List.nil_append] at hhost
                have hhit := hcut (z ++ '\'' :: s)
                rw [hhost, Option.map_some] at hhit
                obtain ⟨W, hW, hne⟩ := rawUserinfo_takesSome _ _ _ _ hhit
                rw [hW] at hhit
                rw [maskUserinfo, around, hW, subAll_hit hne hhit, subAll_congr (rawUserinfo_behind _ none)]
                rfl
              rw [hsame w hw, hsame w' hw']

/-! ## The text -/

theorem redactErrorText_some (text : List Char) :
    redactErrorText T (some text) = redactValues T (maskUserinfo none (maskOdbc T none text)) := by
  cases text with
  | nil => rfl
  | cons c text => rfl

theorem append_quoteLiteral : p ++ quoteLiteral v ++ s = around p (doubled '\'' v) s := by
  simp [quoteLiteral, around]

theorem mem_doubled {c : Char} (hc : c ∈ doubled '\'' v) : c ∈ v := by
  obtain ⟨d, hd, hmem⟩ := List.mem_flatMap.mp hc
  split at hmem
  · rename_i hquote
    rw [List.mem_pair, or_self] at hmem
    rwa [hmem, ← hquote]
  · rwa [List.mem_singleton.mp hmem]

/-- The mask of a secret puts no `?` into a text. -/
theorem not_mem_maskOdbc (hv : '?' ∉ v) : '?' ∉ maskOdbc T b v := by
  refine @subAll_induction Char (odbcSecret T) b v odbcSecret_takesSome
    (fun b v => '?' ∉ v → '?' ∉ subAll (odbcSecret T) b 0 v) ?_ ?_ ?_ hv
  · intro b _
    rw [subAll_nil]
    exact List.not_mem_nil
  · intro b c cs hnone ih hmem
    rw [List.mem_cons, not_or] at hmem
    rw [subAll_pass hnone, List.mem_cons, not_or]
    exact ⟨hmem.1, ih hmem.2⟩
  · intro b w new rest hne hhit ih hmem
    obtain ⟨pre, more, tail, rfl, rfl, -, -⟩ := odbcSecret_cutsNoPair.new b w rest new hhit
    obtain ⟨pre', value, hsplit, -, -, hnew, -⟩ := odbcSecret_eq_some hhit
    rw [subAll_hit hne hhit, hnew, List.mem_append, List.mem_append, not_or, not_or]
    refine ⟨⟨fun hpre => hmem ?_, by decide⟩, ih fun hrest => hmem (List.mem_append_right _ hrest)⟩
    rw [hsplit]
    exact List.mem_append_left _ hpre

/-- **A literal that stands** is masked, whatever its value is. -/
theorem redactErrorText_of_stands (h : LiteralStands T p v s) :
    redactErrorText T (some (p ++ quoteLiteral v ++ s)) =
      redactValues T (maskUserinfo none (maskOdbc T none p) ++ '\'' :: '\'' ::
        maskUserinfo (some '\'') (maskOdbc T (some '\'') s)) := by
  have hpairs : Paired '\'' (maskUserinfo (some '\'') (maskOdbc T (some '\'') (doubled '\'' v))) :=
    (paired_doubled.subAll odbcSecret_cutsNoPair odbcSecret_takesSome).subAll rawUserinfo_cutsNoPair
      rawUserinfo_takesSome
  have hodbc := h.odbc.split odbcSecret_endsBefore odbcSecret_takesSome
  have huserinfo := h.userinfo.split rawUserinfo_endsBefore rawUserinfo_takesSome
  rw [redactErrorText_some, append_quoteLiteral, maskOdbc, hodbc, maskUserinfo]
  rw [maskOdbc, maskOdbc, maskOdbc] at huserinfo
  rw [huserinfo]
  have hmask := maskQuotes_literal (s := maskUserinfo (some '\'') (maskOdbc T (some '\'') s)) h.even hpairs
  rw [maskQuotes, maskQuotes, maskUserinfo, maskUserinfo, maskUserinfo] at hmask
  rw [redactValues, redactValues, around, maskUserinfo, maskUserinfo, ← hmask]
  rfl

/-- **Two values whose literals are hidden in one way leave one text.** -/
theorem redactErrorText_eq_of_treated (treatment : Treatment) (v₁ v₂ : List Char)
    (h₁ : TreatedAs T p v₁ s treatment) (h₂ : TreatedAs T p v₂ s treatment) :
    redactErrorText T (some (p ++ quoteLiteral v₁ ++ s)) = redactErrorText T (some (p ++ quoteLiteral v₂ ++ s)) := by
  cases treatment with
  | odbcSecret =>
    have hvalue : ∀ {v}, InSecret T p v → ∀ c ∈ doubled '\'' v, isOdbcValue c = true :=
      fun h c hc => h.value c (mem_doubled hc)
    rw [redactErrorText_some, redactErrorText_some, append_quoteLiteral, append_quoteLiteral,
      maskOdbc_inSecret h₁.opened (hvalue h₁) (hvalue h₂)]
  | userinfo =>
    have hodbc : ∀ {v}, InUserinfo T p v s → maskOdbc T none (around p (doubled '\'' v) s) =
        around (maskOdbc T none p) (maskOdbc T (some '\'') (doubled '\'' v)) (maskOdbc T (some '\'') s) :=
      fun h => h.apart.split odbcSecret_endsBefore odbcSecret_takesSome
    have hvalue : ∀ {v}, InUserinfo T p v s → '?' ∉ maskOdbc T (some '\'') (doubled '\'' v) :=
      fun h => not_mem_maskOdbc fun hmem => h.value (mem_doubled hmem)
    obtain ⟨host, hhost⟩ := Option.isSome_iff_exists.mp h₁.closed
    rw [redactErrorText_some, redactErrorText_some, append_quoteLiteral, append_quoteLiteral, hodbc h₁, hodbc h₂,
      maskUserinfo_inUserinfo h₁.opened hhost (hvalue h₁) (hvalue h₂)]
  | literal => rw [redactErrorText_of_stands h₁, redactErrorText_of_stands h₂]

/-- Two values of a message that quotes nothing else. -/
theorem redactErrorText_eq_acme :
    redactErrorText .ascii (some ("converting ".toList ++ quoteLiteral "Acme".toList ++ " to int".toList)) =
      redactErrorText .ascii (some ("converting ".toList ++ quoteLiteral "O'Neil".toList ++ " to int".toList)) := by
  refine redactErrorText_eq_of_treated .literal _ _ ?_ ?_
  · exact ⟨⟨by decide, by decide⟩, ⟨by decide, by decide⟩, by decide⟩
  · exact ⟨⟨by decide, by decide⟩, ⟨by decide, by decide⟩, by decide⟩

/-- One apostrophe in front of a value, and the value is what is left. -/
theorem apostrophe_uncovers_value : ¬ ∀ p s v₁ v₂ : List Char,
    redactErrorText .ascii (some (p ++ quoteLiteral v₁ ++ s)) =
      redactErrorText .ascii (some (p ++ quoteLiteral v₂ ++ s)) := by
  intro h
  exact absurd (h "can't convert ".toList " to int".toList "Acme".toList "Beta".toList) (by decide)

end LocalSqlAgent
