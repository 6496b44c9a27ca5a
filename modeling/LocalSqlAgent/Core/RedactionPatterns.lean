import LocalSqlAgent.Core.Redaction

/-! # What the redaction's patterns match around a quote

The two credential patterns run over a text before its quotes are looked at. A quote ends neither of them,
but what they match in front of one depends on it only where they reach over it; and neither cuts a doubled
quote in two. The literals are read over doubled quotes.

* **`odbcSecret_endsBefore`**, **`rawUserinfo_endsBefore`**: matches that end in front of a quote.
* **`odbcSecret_cutsNoPair`**, **`rawUserinfo_cutsNoPair`**: matches and doubled quotes.
* **`maskQuotes_literal`**: a literal behind an even number of quotes is masked whatever its value is. -/

namespace LocalSqlAgent

variable {T : CharTable} {b : Option Char} {x y cs value rest new w u : List Char}

/-! ## The ODBC secret -/

theorem findSome?_map {α β γ : Type*} {f : α → Option β} {g : α → Option γ} {h : γ → β} {l : List α}
    (hfg : ∀ a ∈ l, f a = (g a).map h) : l.findSome? f = (l.findSome? g).map h := by
  induction l with
  | nil => rfl
  | cons a l ih =>
    obtain ⟨ha, hl⟩ := List.forall_mem_cons.mp hfg
    rw [List.findSome?_cons, List.findSome?_cons, ha, ih hl]
    cases g a <;> rfl

theorem afterMark_cut {mark : Char} (hmark : '\'' ≠ mark) :
    afterMark mark (x ++ '\'' :: y) = (afterMark mark x).map (· ++ '\'' :: y) := by
  cases x with
  | nil => exact if_neg hmark
  | cons c x =>
    rw [List.cons_append, afterMark, afterMark]
    split <;> rfl

theorem afterMark_eq_some {mark : Char} (h : afterMark mark cs = some rest) : cs = mark :: rest := by
  cases cs with
  | nil => cases h
  | cons c cs =>
    rw [afterMark] at h
    split at h
    · rename_i hc
      cases h
      rw [hc]
    · cases h

theorem afterEquals_cut : afterEquals (x ++ '\'' :: y) = (afterEquals x).map (· ++ '\'' :: y) := by
  have hspace : isPySpace '\'' = false := by decide
  rw [afterEquals, afterEquals, dropWhile_cut hspace, afterMark_cut (by decide), Option.map_map, Option.map_map]
  refine congrArg (Option.map · _) (funext fun rest => ?_)
  exact dropWhile_cut hspace

theorem secretValue_cut : secretValue (x ++ '\'' :: y) = (secretValue x).map (· ++ '\'' :: y) := by
  refine findSome?_map fun letters hletters => ?_
  have hpattern : letters.all isPatternLetter = true := by
    revert letters
    decide
  rw [afterLetters_cut hpattern (by decide)]
  cases afterLetters letters x with
  | none => rfl
  | some rest => exact afterEquals_cut

/-- The key and the equals sign of a secret, and its value. -/
theorem secretValue_eq_some (h : secretValue cs = some value) :
    ∃ key sp, cs = key ++ '=' :: (sp ++ value) ∧ ∀ c ∈ sp, isPySpace c = true := by
  obtain ⟨letters, -, hletters⟩ := List.exists_of_findSome?_eq_some h
  obtain ⟨after, hafter, hequals⟩ := Option.bind_eq_some_iff.mp hletters
  obtain ⟨spelled, rfl, -⟩ := afterLetters_eq_some hafter
  obtain ⟨rest, hrest, rfl⟩ := Option.map_eq_some_iff.mp hequals
  refine ⟨spelled ++ after.takeWhile isPySpace, rest.takeWhile isPySpace, ?_, fun c hc => List.mem_takeWhile_imp hc⟩
  rw [List.takeWhile_append_dropWhile, List.append_assoc, ← afterMark_eq_some hrest, List.takeWhile_append_dropWhile]

/-- What stands in front of the rest of a text. -/
theorem take_length_sub (pre z : List Char) : (pre ++ z).take ((pre ++ z).length - z.length) = pre := by
  rw [List.length_append, Nat.add_sub_cancel, List.take_left]

theorem odbcSecret_eq_some (h : odbcSecret T b cs = some (new, rest)) :
    ∃ pre value, cs = pre ++ value ∧ pre.getLast? ≠ some '\'' ∧ pre ≠ [] ∧ new = pre ++ mask ∧
      rest = value.dropWhile isOdbcValue := by
  unfold odbcSecret at h
  split at h
  · obtain ⟨value, hvalue, hm⟩ := Option.map_eq_some_iff.mp h
    obtain ⟨key, sp, rfl, hsp⟩ := secretValue_eq_some hvalue
    have hsplit : key ++ '=' :: (sp ++ value) = (key ++ '=' :: sp) ++ value := by simp
    rw [hsplit, take_length_sub] at hm
    obtain ⟨rfl, rfl⟩ := Prod.mk.inj hm
    refine ⟨key ++ '=' :: sp, value, hsplit, ?_, by simp, rfl, rfl⟩
    cases hlast : sp.getLast? with
    | none => simp [List.getLast?_append, List.getLast?_cons, hlast]
    | some c =>
      rw [List.getLast?_append, List.getLast?_cons, hlast]
      rintro heq
      cases heq
      exact absurd (hsp _ (List.mem_of_getLast? hlast)) (by decide)
  · cases h

theorem odbcSecret_takesSome : TakesSome (odbcSecret T) := by
  intro b cs new rest h
  obtain ⟨pre, value, rfl, -, hne, -, rfl⟩ := odbcSecret_eq_some h
  refine ⟨pre ++ value.takeWhile isOdbcValue, ?_, fun hnil => hne (List.append_eq_nil_iff.mp hnil).1⟩
  rw [List.append_assoc, List.takeWhile_append_dropWhile]

/-- The secret of a text that goes on with a quote. -/
theorem odbcSecret_cut : odbcSecret T b (x ++ '\'' :: y) =
    if wordBoundary T b.toList x then
      (secretValue x).map fun value =>
        (x.take (x.length - value.length) ++ mask, (value ++ '\'' :: y).dropWhile isOdbcValue)
    else none := by
  have hword : T.isWord '\'' = false := (quoteMark_plain rfl).2
  rw [odbcSecret, wordBoundary_cut hword, secretValue_cut, Option.map_map]
  split
  · cases hvalue : secretValue x with
    | none => rfl
    | some value =>
      obtain ⟨key, sp, rfl, -⟩ := secretValue_eq_some hvalue
      have hshort : key ++ '=' :: (sp ++ value) = (key ++ '=' :: sp) ++ value := by simp
      have hlong : key ++ '=' :: (sp ++ value) ++ '\'' :: y = (key ++ '=' :: sp) ++ (value ++ '\'' :: y) := by simp
      rw [Option.map_some, Option.map_some, Function.comp_apply, hlong, take_length_sub, hshort, take_length_sub]
  · rfl

theorem odbcSecret_quote : isOdbcValue '\'' = true := by decide

/-- A value that has ended before a quote, or that goes on behind it. -/
theorem dropWhile_quote {f : Char → Bool} (hquote : f '\'' = true) :
    (value ++ '\'' :: y).dropWhile f =
      if value.dropWhile f = [] then y.dropWhile f else value.dropWhile f ++ '\'' :: y := by
  rw [List.dropWhile_append, List.dropWhile_cons_of_pos hquote]
  simp only [List.isEmpty_iff]

/-- What goes on behind a quote does not leave it. -/
theorem not_dropWhile_quote {f : Char → Bool} : y.dropWhile f ≠ rest ++ '\'' :: y := by
  intro h
  have hlength := congrArg List.length h
  have hle : (y.dropWhile f).length ≤ y.length := (List.dropWhile_sublist f).length_le
  rw [List.length_append, List.length_cons] at hlength
  omega

/-- **A quote ends an ODBC secret** that has ended before it. -/
theorem odbcSecret_endsBefore : EndsBefore '\'' (odbcSecret T) where
  notAt b cs := by
    have hcut := odbcSecret_cut (T := T) (b := b) (x := []) (y := cs)
    rw [List.nil_append] at hcut
    rw [hcut]
    split <;> rfl
  inside b x y new r h := by
    rw [odbcSecret_cut] at h
    rw [odbcSecret]
    split at h
    · rename_i hboundary
      obtain ⟨value, hvalue, hm⟩ := Option.map_eq_some_iff.mp h
      obtain ⟨rfl, hrest⟩ := Prod.mk.inj hm
      rw [dropWhile_quote odbcSecret_quote] at hrest
      split at hrest
      · exact absurd hrest not_dropWhile_quote
      · rw [if_pos hboundary, hvalue, Option.map_some, List.append_cancel_right hrest]
    · cases h
  before b x y h := by
    rw [odbcSecret_cut] at h
    rw [odbcSecret]
    split at h
    · rename_i hboundary
      rw [Option.map_eq_none_iff] at h
      rw [if_pos hboundary, h]
      rfl
    · rename_i hboundary
      exact if_neg hboundary

/-- An ODBC secret cuts no pair of quotes. -/
theorem odbcSecret_cutsNoPair : CutsNoPair '\'' (odbcSecret T) where
  notAt := odbcSecret_endsBefore.notAt
  edge b w rest new h := by
    obtain ⟨pre, value, -, -, -, -, rfl⟩ := odbcSecret_eq_some h
    refine .inr fun hhead => ?_
    have hstop := List.head?_dropWhile_not isOdbcValue value
    rw [hhead] at hstop
    simp [isOdbcValue] at hstop
  new b w rest new h := by
    obtain ⟨pre, value, hsplit, hlast, -, rfl, rfl⟩ := odbcSecret_eq_some h
    refine ⟨pre, value.takeWhile isOdbcValue, mask, ?_, rfl, hlast, by decide⟩
    rw [← List.append_left_inj (value.dropWhile isOdbcValue), hsplit, List.append_assoc,
      List.takeWhile_append_dropWhile]

/-! ## The user information of a URL -/

theorem afterScheme_cut : afterScheme (x ++ '\'' :: y) = (afterScheme x).map (· ++ '\'' :: y) := by
  unfold afterScheme
  rw [afterMark_cut (by decide)]
  cases afterMark ':' x with
  | none => rfl
  | some x₁ =>
    simp only [Option.map_some, Option.bind_some]
    rw [afterMark_cut (by decide)]
    cases afterMark '/' x₁ with
    | none => rfl
    | some x₂ =>
      simp only [Option.map_some, Option.bind_some]
      exact afterMark_cut (by decide)

theorem afterScheme_eq_some (h : afterScheme cs = some rest) : cs = "://".toList ++ rest := by
  obtain ⟨x₂, h, hlast⟩ := Option.bind_eq_some_iff.mp h
  obtain ⟨x₁, hfirst, hsecond⟩ := Option.bind_eq_some_iff.mp h
  rw [afterMark_eq_some hfirst, afterMark_eq_some hsecond, afterMark_eq_some hlast]
  rfl

theorem afterUserinfo_eq_some (h : afterUserinfo cs = some rest) : ∃ w, cs = w ++ '@' :: rest := by
  induction cs with
  | nil => cases h
  | cons c cs ih =>
    rw [afterUserinfo] at h
    split at h
    · cases h
    · cases hrest : afterUserinfo cs with
      | some host =>
        rw [hrest, Option.some_or, Option.some.injEq] at h
        obtain ⟨w, hw⟩ := ih (hrest.trans (congrArg some h))
        exact ⟨c :: w, by rw [hw, List.cons_append]⟩
      | none =>
        rw [hrest, Option.none_or] at h
        split at h
        · rename_i hc
          cases h
          exact ⟨[], by rw [hc, List.nil_append]⟩
        · cases h

theorem afterUserinfo_before (h : afterUserinfo (x ++ '\'' :: y) = none) : afterUserinfo x = none := by
  induction x with
  | nil => rfl
  | cons c x ih =>
    rw [List.cons_append, afterUserinfo] at h
    rw [afterUserinfo]
    split
    · rfl
    · rename_i hc
      rw [if_neg hc, Option.or_eq_none_iff] at h
      rw [ih h.1, Option.none_or]
      split
      · rename_i hat
        rw [if_pos hat] at h
        cases h.2
      · rfl

/-- The last `@` in front of a quote is the last one where nothing follows. -/
theorem afterUserinfo_inside (h : afterUserinfo (x ++ '\'' :: y) = some (rest ++ '\'' :: y)) :
    afterUserinfo x = some rest := by
  induction x generalizing rest with
  | nil =>
    -- the `@` would stand behind the quote
    obtain ⟨w, hw⟩ := afterUserinfo_eq_some h
    have hlength := congrArg List.length hw
    simp only [List.nil_append, List.length_append, List.length_cons] at hlength
    omega
  | cons c x ih =>
    rw [List.cons_append, afterUserinfo] at h
    rw [afterUserinfo]
    split at h
    · cases h
    · rename_i hc
      rw [if_neg hc]
      cases hrest : afterUserinfo (x ++ '\'' :: y) with
      | some host =>
        rw [hrest, Option.some_or, Option.some.injEq] at h
        rw [ih (hrest.trans (congrArg some h)), Option.some_or]
      | none =>
        rw [hrest, Option.none_or] at h
        rw [afterUserinfo_before hrest, Option.none_or]
        split at h
        · rename_i hat
          rw [if_pos hat, List.append_cancel_right (Option.some.inj h)]
        · cases h

theorem rawUserinfo_eq_some (h : rawUserinfo b cs = some (new, rest)) :
    ∃ user password, cs = "://".toList ++ user ++ [':'] ++ password ∧ afterUserinfo password = some rest ∧
      new = "://".toList ++ user ++ [':'] ++ (mask ++ ['@']) := by
  obtain ⟨behind, hbehind, h⟩ := Option.bind_eq_some_iff.mp h
  obtain ⟨password, hpassword, h⟩ := Option.bind_eq_some_iff.mp h
  obtain ⟨host, hhost, hm⟩ := Option.map_eq_some_iff.mp h
  obtain ⟨rfl, rfl⟩ := Prod.mk.inj hm
  refine ⟨behind.takeWhile isUserChar, password, ?_, hhost, rfl⟩
  rw [afterScheme_eq_some hbehind, List.append_assoc, List.append_assoc, List.singleton_append,
    ← afterMark_eq_some hpassword, List.takeWhile_append_dropWhile]

theorem rawUserinfo_takesSome : TakesSome rawUserinfo := by
  intro b cs new rest h
  obtain ⟨user, password, rfl, hhost, -⟩ := rawUserinfo_eq_some h
  obtain ⟨w, rfl⟩ := afterUserinfo_eq_some hhost
  refine ⟨"://".toList ++ user ++ [':'] ++ w ++ ['@'], by simp, ?_⟩
  exact List.append_ne_nil_of_right_ne_nil _ (List.cons_ne_nil _ _)

/-- What is found where the password has been read up to a place in front of a quote. -/
theorem rawUserinfo_cut {behind : List Char} (hscheme : afterScheme x = some behind)
    (huser : behind.dropWhile isUserChar ≠ []) : rawUserinfo b (x ++ '\'' :: y) =
      (afterMark ':' (behind.dropWhile isUserChar)).bind fun password =>
        (afterUserinfo (password ++ '\'' :: y)).map fun host =>
          ("://".toList ++ behind.takeWhile isUserChar ++ [':'] ++ (mask ++ ['@']), host) := by
  have hdrop : (behind ++ '\'' :: y).dropWhile isUserChar = behind.dropWhile isUserChar ++ '\'' :: y := by
    rw [dropWhile_quote (by decide), if_neg huser]
  have htake : (behind ++ '\'' :: y).takeWhile isUserChar = behind.takeWhile isUserChar := by
    rw [← List.append_left_inj (behind.dropWhile isUserChar ++ '\'' :: y), ← hdrop, List.takeWhile_append_dropWhile,
      hdrop, ← List.append_assoc, List.takeWhile_append_dropWhile]
  rw [rawUserinfo, afterScheme_cut, hscheme, Option.map_some, Option.bind_some, hdrop, htake,
    afterMark_cut (by decide)]
  cases afterMark ':' (behind.dropWhile isUserChar) <;> rfl

/-- A user name that is not over in front of a quote. -/
theorem rawUserinfo_open {behind : List Char} (hscheme : afterScheme x = some behind)
    (huser : behind.dropWhile isUserChar = []) : rawUserinfo b (x ++ '\'' :: y) =
      (afterMark ':' (y.dropWhile isUserChar)).bind fun password =>
        (afterUserinfo password).map fun host =>
          ("://".toList ++ (behind ++ '\'' :: y).takeWhile isUserChar ++ [':'] ++ (mask ++ ['@']), host) := by
  rw [rawUserinfo, afterScheme_cut, hscheme, Option.map_some, Option.bind_some, dropWhile_quote (by decide),
    if_pos huser]

theorem rawUserinfo_noScheme (hscheme : afterScheme x = none) : rawUserinfo b (x ++ '\'' :: y) = none := by
  rw [rawUserinfo, afterScheme_cut, hscheme]
  rfl

/-- **A quote ends the user information** that has ended before it. -/
theorem rawUserinfo_endsBefore : EndsBefore '\'' rawUserinfo where
  notAt b cs := rawUserinfo_noScheme (x := []) rfl
  inside b x y new r h := by
    cases hscheme : afterScheme x with
    | none =>
      rw [rawUserinfo_noScheme hscheme] at h
      cases h
    | some behind =>
      by_cases huser : behind.dropWhile isUserChar = []
      · -- the colon would stand behind the quote
        rw [rawUserinfo_open hscheme huser] at h
        obtain ⟨password, hpassword, h⟩ := Option.bind_eq_some_iff.mp h
        obtain ⟨host, hhost, hm⟩ := Option.map_eq_some_iff.mp h
        obtain ⟨w, hw⟩ := afterUserinfo_eq_some hhost
        have hlength := congrArg List.length (afterMark_eq_some hpassword)
        have hle : (y.dropWhile isUserChar).length ≤ y.length := (List.dropWhile_sublist _).length_le
        rw [hw, (Prod.mk.inj hm).2] at hlength
        simp only [List.length_append, List.length_cons] at hlength
        omega
      · rw [rawUserinfo_cut hscheme huser] at h
        obtain ⟨password, hpassword, h⟩ := Option.bind_eq_some_iff.mp h
        obtain ⟨host, hhost, hm⟩ := Option.map_eq_some_iff.mp h
        obtain ⟨rfl, rfl⟩ := Prod.mk.inj hm
        rw [rawUserinfo, hscheme, Option.bind_some, hpassword, Option.bind_some, afterUserinfo_inside hhost]
        rfl
  before b x y h := by
    rw [rawUserinfo]
    cases hscheme : afterScheme x with
    | none => rfl
    | some behind =>
      rw [Option.bind_some]
      by_cases huser : behind.dropWhile isUserChar = []
      · rw [huser]
        rfl
      · rw [rawUserinfo_cut hscheme huser] at h
        cases hpassword : afterMark ':' (behind.dropWhile isUserChar) with
        | none => rfl
        | some password =>
          rw [hpassword, Option.bind_some, Option.map_eq_none_iff] at h
          rw [Option.bind_some, afterUserinfo_before h]
          rfl

/-- The user information of a URL cuts no pair of quotes. -/
theorem rawUserinfo_cutsNoPair : CutsNoPair '\'' rawUserinfo where
  notAt := rawUserinfo_endsBefore.notAt
  edge b w rest new h := by
    obtain ⟨user, password, hsplit, hhost, -⟩ := rawUserinfo_eq_some h
    obtain ⟨before, rfl⟩ := afterUserinfo_eq_some hhost
    have hw : w = "://".toList ++ user ++ [':'] ++ before ++ ['@'] := by
      rw [← List.append_left_inj rest, hsplit]
      simp
    rw [hw, List.getLast?_concat]
    exact .inl (by decide)
  new b w rest new h := by
    obtain ⟨user, password, hsplit, hhost, rfl⟩ := rawUserinfo_eq_some h
    obtain ⟨before, rfl⟩ := afterUserinfo_eq_some hhost
    refine ⟨"://".toList ++ user ++ [':'], before ++ ['@'], mask ++ ['@'], ?_, rfl, ?_, by decide⟩
    · rw [← List.append_left_inj rest, hsplit]
      simp
    · rw [List.getLast?_concat]
      decide

/-! ## Quoted values -/

theorem afterLiteral_pair : afterLiteral ('\'' :: '\'' :: cs) = afterLiteral cs := rfl

/-- Of what follows the opening quote only a quote counts, and whether another one follows it. -/
theorem afterLiteral_cons (c : Char) (cs : List Char) : afterLiteral (c :: cs) =
    if c = '\'' then (if cs.head? = some '\'' then afterLiteral cs.tail else cs) else afterLiteral cs := by
  rw [afterLiteral.eq_def]
  split
  · contradiction
  · rename_i heq
    cases heq
    rfl
  · rename_i hpair heq
    cases heq
    rw [if_pos rfl, if_neg]
    intro hhead
    obtain ⟨tail, htail⟩ := List.head?_eq_some_iff.mp hhead
    exact hpair tail htail
  · rename_i hquote heq
    cases heq
    exact (if_neg hquote).symm

theorem afterLiteral_quote (h : cs.head? ≠ some '\'') : afterLiteral ('\'' :: cs) = cs := by
  rw [afterLiteral_cons, if_pos rfl, if_neg h]

theorem afterLiteral_char {c : Char} (hc : c ≠ '\'') : afterLiteral (c :: cs) = afterLiteral cs := by
  rw [afterLiteral_cons, if_neg hc]

/-- **A literal is read over pairs of quotes.** -/
theorem afterLiteral_paired (h : Paired '\'' u) : afterLiteral (u ++ cs) = afterLiteral cs := by
  induction h with
  | nil => rfl
  | char hc _ ih => rw [List.cons_append, afterLiteral_char hc, ih]
  | pair _ ih =>
    rw [List.cons_append, List.cons_append, afterLiteral_pair, ih]

/-- What follows a literal is the end of the text. -/
theorem afterLiteral_suffix (cs : List Char) : ∃ w, cs = w ++ afterLiteral cs := by
  induction hn : cs.length using Nat.strongRecOn generalizing cs with
  | _ n ih =>
    cases cs with
    | nil => exact ⟨[], rfl⟩
    | cons c cs =>
      rw [List.length_cons] at hn
      by_cases hc : c = '\''
      · subst hc
        by_cases hhead : cs.head? = some '\''
        · obtain ⟨tail, rfl⟩ := List.head?_eq_some_iff.mp hhead
          rw [List.length_cons] at hn
          obtain ⟨w, hw⟩ := ih tail.length (by omega) tail rfl
          exact ⟨'\'' :: '\'' :: w, by rw [afterLiteral_pair, List.cons_append, List.cons_append, ← hw]⟩
        · exact ⟨['\''], by rw [afterLiteral_quote hhead, List.singleton_append]⟩
      · obtain ⟨w, hw⟩ := ih cs.length (by omega) cs rfl
        exact ⟨c :: w, by rw [afterLiteral_char hc, List.cons_append, ← hw]⟩

theorem afterLiteral_cons_suffix (c : Char) (cs : List Char) : ∃ w, cs = w ++ afterLiteral (c :: cs) := by
  by_cases hc : c = '\''
  · subst hc
    by_cases hhead : cs.head? = some '\''
    · obtain ⟨tail, rfl⟩ := List.head?_eq_some_iff.mp hhead
      obtain ⟨w, hw⟩ := afterLiteral_suffix tail
      exact ⟨'\'' :: w, by rw [afterLiteral_pair, List.cons_append, ← hw]⟩
    · exact ⟨[], by rw [afterLiteral_quote hhead, List.nil_append]⟩
  · obtain ⟨w, hw⟩ := afterLiteral_suffix cs
    exact ⟨w, by rw [afterLiteral_char hc, ← hw]⟩

/-- The mask of a literal depends on its end only. -/
theorem maskQuoted_append {t : List Char} (ht : t ≠ []) :
    maskQuoted ('\'' :: (u ++ t)) = if t.getLast? = some '\'' then ['\'', '…', '\''] else ['\'', '…'] := by
  have hlast : ('\'' :: (u ++ t)).getLast? = t.getLast? := by
    rw [← List.cons_append, List.getLast?_append, List.getLast?_eq_some_getLast ht, Option.some_or]
  have hlength : 1 < ('\'' :: (u ++ t)).length := by
    have hpos := List.length_pos_iff.mpr ht
    rw [List.length_cons, List.length_append]
    omega
  rw [maskQuoted, hlast]
  simp only [hlength, and_true]

/-- `_QUOTED_LITERAL_RE.sub`. -/
def maskQuotes (text : List Char) : List Char := subAll quotedLiteral none 0 text

theorem maskQuotes_from (b : Option Char) : subAll quotedLiteral b 0 cs = maskQuotes cs := by
  cases cs with
  | nil => rfl
  | cons c cs => rfl

theorem maskQuotes_char {c : Char} (hc : c ≠ '\'') : maskQuotes (c :: cs) = c :: maskQuotes cs := by
  have hnone : quotedLiteral none (c :: cs) = none := by
    unfold quotedLiteral
    split
    · rename_i heq
      exact absurd (List.cons_eq_cons.mp heq).1 hc
    · rfl
  rw [maskQuotes, subAll_pass hnone, maskQuotes_from]

theorem maskQuotes_quote (h : afterLiteral (w ++ rest) = rest) :
    maskQuotes ('\'' :: (w ++ rest)) = maskQuoted ('\'' :: w) ++ maskQuotes rest := by
  have hsplit : '\'' :: (w ++ rest) = ('\'' :: w) ++ rest := rfl
  have hfind : quotedLiteral none (('\'' :: w) ++ rest) = some (maskQuoted ('\'' :: w), rest) := by
    have hread : quotedLiteral none (('\'' :: w) ++ rest) =
        some (maskQuoted ((('\'' :: w) ++ rest).take ((('\'' :: w) ++ rest).length - (afterLiteral (w ++ rest)).length)),
          afterLiteral (w ++ rest)) := rfl
    rw [hread, h, take_length_sub]
  rw [maskQuotes, hsplit, subAll_hit (List.cons_ne_nil _ _) hfind, maskQuotes_from]

/-- **A literal that an odd number of quotes opened** ends behind a single quote, or the last one may be
doubled. -/
theorem odd_quotes_cases (h : ¬ 2 ∣ x.count '\'') :
    (∃ u c z, Paired '\'' u ∧ c ≠ '\'' ∧ x = u ++ '\'' :: c :: z ∧ 2 ∣ z.count '\'') ∨
      ∃ u, Paired '\'' u ∧ x = u ++ ['\''] := by
  induction hn : x.length using Nat.strongRecOn generalizing x with
  | _ n ih =>
    cases x with
    | nil => exact absurd ⟨0, rfl⟩ h
    | cons c x =>
      rw [List.length_cons] at hn
      by_cases hc : c = '\''
      · subst hc
        cases x with
        | nil => exact .inr ⟨[], .nil, rfl⟩
        | cons d x =>
          rw [List.length_cons] at hn
          by_cases hd : d = '\''
          · subst hd
            rw [List.count_cons_self, List.count_cons_self] at h
            rcases ih x.length (by omega) (by omega) rfl with ⟨u, e, z, hu, he, rfl, hz⟩ | ⟨u, hu, rfl⟩
            · exact .inl ⟨_, e, z, .pair hu, he, rfl, hz⟩
            · exact .inr ⟨_, .pair hu, rfl⟩
          · rw [List.count_cons_self, List.count_cons_of_ne hd] at h
            exact .inl ⟨[], d, x, .nil, hd, rfl, by omega⟩
      · rw [List.count_cons_of_ne hc] at h
        rcases ih x.length (by omega) h rfl with ⟨u, e, z, hu, he, rfl, hz⟩ | ⟨u, hu, rfl⟩
        · exact .inl ⟨_, e, z, .char hc hu, he, rfl, hz⟩
        · exact .inr ⟨_, .char hc hu, rfl⟩

/-- A literal whose opening quote has been read, its value in pairs. -/
theorem maskQuotes_value {v s : List Char} (hv : Paired '\'' v) (hu : Paired '\'' u) :
    maskQuotes ('\'' :: (u ++ (v ++ '\'' :: s))) = maskQuotes ('\'' :: '\'' :: s) := by
  obtain ⟨w, hw⟩ := afterLiteral_cons_suffix '\'' s
  have hafter : ∀ {z : List Char}, Paired '\'' z →
      afterLiteral ((z ++ '\'' :: w) ++ afterLiteral ('\'' :: s)) = afterLiteral ('\'' :: s) := by
    intro z hz
    rw [List.append_assoc, List.cons_append, ← hw, afterLiteral_paired hz]
  have hread : ∀ {z : List Char}, Paired '\'' z → maskQuotes ('\'' :: (z ++ '\'' :: s)) =
      (if ('\'' :: w).getLast? = some '\'' then ['\'', '…', '\''] else ['\'', '…']) ++
        maskQuotes (afterLiteral ('\'' :: s)) := by
    intro z hz
    have hquote := maskQuotes_quote (hafter hz)
    rw [List.append_assoc, List.cons_append, ← hw, maskQuoted_append (List.cons_ne_nil _ _)] at hquote
    exact hquote
  have hboth := hread (hu.append hv)
  rw [List.append_assoc] at hboth
  exact hboth.trans (hread .nil).symm

/-- **Behind an even number of quotes** a literal is masked whatever its value is. -/
theorem maskQuotes_literal {v s : List Char} (hx : 2 ∣ x.count '\'') (hv : Paired '\'' v) :
    maskQuotes (x ++ '\'' :: (v ++ '\'' :: s)) = maskQuotes (x ++ '\'' :: '\'' :: s) := by
  -- on the length of what stands in front: a literal in it is passed in one step
  induction hn : x.length using Nat.strongRecOn generalizing x with
  | _ n ih =>
    cases x with
    | nil => exact maskQuotes_value hv .nil
    | cons c x =>
      rw [List.length_cons] at hn
      by_cases hc : c = '\''
      · subst hc
        rw [List.count_cons_self] at hx
        have hodd : ¬ 2 ∣ x.count '\'' := by omega
        rcases odd_quotes_cases hodd with ⟨u, d, z, hu, hd, rfl, hz⟩ | ⟨u, hu, rfl⟩
        · have hpast : ∀ y : List Char, maskQuotes (('\'' :: (u ++ '\'' :: d :: z)) ++ y) =
              maskQuoted ('\'' :: (u ++ ['\''])) ++ maskQuotes ((d :: z) ++ y) := by
            intro y
            have hclose : afterLiteral ((u ++ ['\'']) ++ (d :: z ++ y)) = d :: z ++ y := by
              rw [List.append_assoc, afterLiteral_paired hu]
              exact afterLiteral_quote (by simpa using hd)
            rw [← maskQuotes_quote hclose]
            simp
          have hcount : 2 ∣ (d :: z).count '\'' := by rwa [List.count_cons_of_ne hd]
          simp only [List.length_append, List.length_cons] at hn
          rw [hpast, hpast, ih (d :: z).length (by rw [List.length_cons]; omega) hcount rfl]
        · -- the opening quote of the literal doubles the last one in front of it
          have hpair : Paired '\'' (u ++ ['\'', '\'']) := hu.append (.pair .nil)
          have hlong := maskQuotes_value (s := s) hv hpair
          have hshort := maskQuotes_value (s := s) .nil hpair
          simp only [List.append_assoc, List.cons_append, List.nil_append] at hlong hshort ⊢
          rw [hlong, hshort]
      · rw [List.count_cons_of_ne hc] at hx
        rw [List.cons_append, List.cons_append, maskQuotes_char hc, maskQuotes_char hc, ih x.length (by omega) hx rfl]

end LocalSqlAgent
