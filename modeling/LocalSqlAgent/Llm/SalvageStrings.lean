import LocalSqlAgent.Llm.JsonAnswer

/-! # The strings of an answer that was cut off

`llm.providers.salvage_string_list` takes the whole strings out of a list of strings that ends in the middle.

* **`completeStrings`**, **`salvageMembers`**, **`salvageStringList`**: the code, its loops over what is left of
  the text.
* **`completeStrings_fuel`**, **`salvageMembers_fuel`**: the bound on the loops never ends one.
* **`salvageStringList_ok_iff`**: the function returns when the decoder meets no bound of the interpreter at the
  places where it is asked for a value. -/

namespace LocalSqlAgent

/-! ## The code -/

/-- **`_complete_strings`**, with the strings so far; the first argument bounds the turns of its loop. -/
def completeStrings (L : DecodeLimits) : ℕ → List (List ℕ) → List Char → Except DecodeFailure (List (List ℕ))
  | 0, items, _ => .ok items
  | n + 1, items, cs =>
    match skipSpace cs with
    | [] => .ok items
    | c :: rest =>
      if c = ']' then .ok items
      else
        match rawDecode L (c :: rest) with
        | .error .syntactic => .ok items
        | .error e => .error e
        | .ok (.str units, after) =>
          match skipSpace after with
          | ',' :: rest => completeStrings L n (items ++ [joinSurrogates units]) rest
          | _ => .ok (items ++ [joinSurrogates units])
        | .ok _ => .ok []

/-- A list under the key, or any list without a key. -/
def isTarget (key : Option (List ℕ)) (name : List ℕ) (value : List Char) : Bool :=
  value.head? = some '[' && (key.isNone || key = some (joinSurrogates name))

/-- The loop over the members of an object; the first argument bounds its turns. -/
def salvageMembers (L : DecodeLimits) (key : Option (List ℕ)) :
    ℕ → List Char → Except DecodeFailure (List (List ℕ))
  | 0, _ => .ok []
  | n + 1, cs =>
    match rawDecode L (skipSpace cs) with
    | .error .syntactic => .ok []
    | .error e => .error e
    | .ok (.str name, after) =>
      match skipSpace after with
      | ':' :: rest =>
        if isTarget key name (skipSpace rest) then
          completeStrings L rest.length [] (skipSpace rest).tail
        else
          match rawDecode L (skipSpace rest) with
          | .error .syntactic => .ok []
          | .error e => .error e
          | .ok (_, after) =>
            match skipSpace after with
            | ',' :: rest => salvageMembers L key n rest
            | _ => .ok []
      | _ => .ok []
    | .ok _ => .ok []

/-- The steps behind `_strip_fences`. -/
def salvageCleaned (L : DecodeLimits) (key : Option (List ℕ)) (cleaned : List Char) :
    Except DecodeFailure (List (List ℕ)) :=
  match findJsonSubstring cleaned with
  | none => .ok []
  | some [] => .ok []
  | some (c :: rest) =>
    if c = '[' then completeStrings L (rest.length + 1) [] rest else salvageMembers L key (rest.length + 1) rest

/-- **`salvage_string_list`.** -/
def salvageStringList (L : DecodeLimits) (key : Option (List ℕ)) (text : List Char) :
    Except DecodeFailure (List (List ℕ)) :=
  salvageCleaned L key (stripFences text)

/-! ## One turn of the loop over a list -/

section ListTurns

variable {L : DecodeLimits} {cs r after rest : List Char} {c : Char} {us : List ℕ} {n : ℕ} {items : List (List ℕ)}

/-- **What a turn meets**: the end of the list or of the text, an item the decoder does not read, an item that is
no string, or a string, with a comma behind it or without one. -/
inductive ListTurn (L : DecodeLimits) (cs : List Char) : Prop
  | ends (h : ∀ c ∈ (skipSpace cs).head?, c = ']')
  | broken (c : Char) (r : List Char) (hskip : skipSpace cs = c :: r) (hc : c ≠ ']')
      (hread : rawDecode L (c :: r) = .error .syntactic)
  | bound (c : Char) (r : List Char) (e : DecodeFailure) (hskip : skipSpace cs = c :: r) (hc : c ≠ ']')
      (he : e ≠ .syntactic) (hread : rawDecode L (c :: r) = .error e)
  | other (c : Char) (r : List Char) (v : JsonValue) (after : List Char) (hskip : skipSpace cs = c :: r)
      (hc : c ≠ ']') (hv : ∀ us, v ≠ .str us) (hread : rawDecode L (c :: r) = .ok (v, after))
  | last (c : Char) (r : List Char) (us : List ℕ) (after : List Char) (hskip : skipSpace cs = c :: r) (hc : c ≠ ']')
      (hread : rawDecode L (c :: r) = .ok (.str us, after)) (hafter : ∀ rest, skipSpace after ≠ ',' :: rest)
  | more (c : Char) (r : List Char) (us : List ℕ) (after rest : List Char) (hskip : skipSpace cs = c :: r)
      (hc : c ≠ ']') (hread : rawDecode L (c :: r) = .ok (.str us, after)) (hafter : skipSpace after = ',' :: rest)

theorem listTurn (L : DecodeLimits) (cs : List Char) : ListTurn L cs := by
  cases hskip : skipSpace cs with
  | nil =>
    refine .ends fun c hc => ?_
    rw [hskip] at hc
    cases hc
  | cons c r =>
    by_cases hc : c = ']'
    · refine .ends fun d hd => ?_
      rw [hskip] at hd
      cases hd
      exact hc
    · cases hread : rawDecode L (c :: r) with
      | error e =>
        by_cases he : e = .syntactic
        · exact .broken c r hskip hc (he ▸ hread)
        · exact .bound c r e hskip hc he hread
      | ok q =>
        obtain ⟨v, after⟩ := q
        by_cases hv : ∃ us, v = .str us
        · obtain ⟨us, rfl⟩ := hv
          by_cases hafter : ∃ rest, skipSpace after = ',' :: rest
          · obtain ⟨rest, hafter⟩ := hafter
            exact .more c r us after rest hskip hc hread hafter
          · exact .last c r us after hskip hc hread fun rest h => hafter ⟨rest, h⟩
        · exact .other c r v after hskip hc (fun us h => hv ⟨us, h⟩) hread

theorem completeStrings_turn : completeStrings L (n + 1) items cs =
    match skipSpace cs with
    | [] => .ok items
    | c :: r =>
      if c = ']' then .ok items
      else
        match rawDecode L (c :: r) with
        | .error .syntactic => .ok items
        | .error e => .error e
        | .ok (.str units, after) =>
          match skipSpace after with
          | ',' :: rest => completeStrings L n (items ++ [joinSurrogates units]) rest
          | _ => .ok (items ++ [joinSurrogates units])
        | .ok _ => .ok [] := rfl

theorem completeStrings_ends (h : ∀ c ∈ (skipSpace cs).head?, c = ']') :
    completeStrings L n items cs = .ok items := by
  cases n with
  | zero => rfl
  | succ n =>
    rw [completeStrings_turn]
    split
    · rfl
    · rename_i c r hskip
      rw [if_pos (h c (by rw [hskip]; rfl))]

theorem completeStrings_broken (hskip : skipSpace cs = c :: r) (hc : c ≠ ']')
    (hread : rawDecode L (c :: r) = .error .syntactic) : completeStrings L (n + 1) items cs = .ok items := by
  rw [completeStrings_turn, hskip]
  dsimp only
  rw [if_neg hc, hread]

theorem completeStrings_bound {e : DecodeFailure} (hskip : skipSpace cs = c :: r) (hc : c ≠ ']') (he : e ≠ .syntactic)
    (hread : rawDecode L (c :: r) = .error e) : completeStrings L (n + 1) items cs = .error e := by
  rw [completeStrings_turn, hskip]
  dsimp only
  rw [if_neg hc, hread]
  cases e with
  | syntactic => exact absurd rfl he
  | recursion => rfl
  | digits => rfl

theorem completeStrings_other {v : JsonValue} (hskip : skipSpace cs = c :: r) (hc : c ≠ ']')
    (hv : ∀ us, v ≠ .str us) (hread : rawDecode L (c :: r) = .ok (v, after)) :
    completeStrings L (n + 1) items cs = .ok [] := by
  rw [completeStrings_turn, hskip]
  dsimp only
  rw [if_neg hc, hread]
  cases v with
  | str us => exact absurd rfl (hv us)
  | null => rfl
  | bool b => rfl
  | number i x => rfl
  | arr vs => rfl
  | obj ms => rfl

theorem completeStrings_last (hskip : skipSpace cs = c :: r) (hc : c ≠ ']')
    (hread : rawDecode L (c :: r) = .ok (.str us, after)) (hafter : ∀ rest, skipSpace after ≠ ',' :: rest) :
    completeStrings L (n + 1) items cs = .ok (items ++ [joinSurrogates us]) := by
  rw [completeStrings_turn, hskip]
  dsimp only
  rw [if_neg hc, hread]
  dsimp only
  split
  · rename_i rest heq
    exact absurd heq (hafter rest)
  · rfl

theorem completeStrings_more (hskip : skipSpace cs = c :: r) (hc : c ≠ ']')
    (hread : rawDecode L (c :: r) = .ok (.str us, after)) (hafter : skipSpace after = ',' :: rest) :
    completeStrings L (n + 1) items cs = completeStrings L n (items ++ [joinSurrogates us]) rest := by
  rw [completeStrings_turn, hskip]
  dsimp only
  rw [if_neg hc, hread]
  dsimp only
  rw [hafter]
  rfl

/-- A string and its comma are taken off the text. -/
theorem more_length {v : JsonValue} (hskip : skipSpace cs = c :: r) (hread : rawDecode L (c :: r) = .ok (v, after))
    (hafter : skipSpace after = ',' :: rest) : rest.length + 1 < cs.length := by
  have hvalue := scanValue_shortens L.depth _ _ _ hread
  have hbefore := skipSpace_length cs
  have hbehind := skipSpace_length after
  rw [hskip] at hbefore
  rw [hafter, List.length_cons] at hbehind
  omega

/-- **The bound never ends the loop**, as long as it is not below the length of the text. -/
theorem completeStrings_fuel {m : ℕ} (hn : cs.length < n) (hm : cs.length < m) :
    completeStrings L n items cs = completeStrings L m items cs := by
  induction n generalizing m items cs with
  | zero => omega
  | succ n ih =>
    cases m with
    | zero => omega
    | succ m =>
      cases listTurn L cs with
      | ends h => rw [completeStrings_ends h, completeStrings_ends h]
      | broken c r hskip hc hread => rw [completeStrings_broken hskip hc hread, completeStrings_broken hskip hc hread]
      | bound c r e hskip hc he hread =>
        rw [completeStrings_bound hskip hc he hread, completeStrings_bound hskip hc he hread]
      | other c r v after hskip hc hv hread =>
        rw [completeStrings_other hskip hc hv hread, completeStrings_other hskip hc hv hread]
      | last c r us after hskip hc hread hafter =>
        rw [completeStrings_last hskip hc hread hafter, completeStrings_last hskip hc hread hafter]
      | more c r us after rest hskip hc hread hafter =>
        have hlength := more_length hskip hread hafter
        rw [completeStrings_more hskip hc hread hafter, completeStrings_more hskip hc hread hafter]
        exact ih (by omega) (by omega)

/-- **The places of a list** where the decoder is asked for an item. -/
inductive AskedItem (L : DecodeLimits) : List Char → List Char → Prop
  | here {cs r : List Char} {c : Char} (hskip : skipSpace cs = c :: r) (hc : c ≠ ']') : AskedItem L cs (c :: r)
  | next {cs r after rest q : List Char} {c : Char} {us : List ℕ} (hskip : skipSpace cs = c :: r) (hc : c ≠ ']')
      (hread : rawDecode L (c :: r) = .ok (.str us, after)) (hafter : skipSpace after = ',' :: rest)
      (hq : AskedItem L rest q) : AskedItem L cs q

/-- The decoder meets no bound of the interpreter. -/
def MeetsNoBound (L : DecodeLimits) (q : List Char) : Prop := ∀ e, rawDecode L q = .error e → e = .syntactic

/-- **The loop over a list raises** what the decoder raises where it is asked for an item, and nothing else. -/
theorem completeStrings_ok_iff (hn : cs.length < n) :
    (∃ found, completeStrings L n items cs = .ok found) ↔ ∀ q, AskedItem L cs q → MeetsNoBound L q := by
  induction n generalizing items cs with
  | zero => omega
  | succ n ih =>
    have hsame : ∀ {c d : Char} {r r' : List Char}, skipSpace cs = c :: r → skipSpace cs = d :: r' → d :: r' = c :: r :=
      fun h h' => h'.symm.trans h
    cases listTurn L cs with
    | ends h =>
      refine iff_of_true ⟨items, completeStrings_ends h⟩ fun q hq => ?_
      have hnone : ∀ c r, skipSpace cs = c :: r → c = ']' := fun c r hskip => h c (by rw [hskip]; rfl)
      cases hq with
      | here hskip hc => exact absurd (hnone _ _ hskip) hc
      | next hskip hc _ _ _ => exact absurd (hnone _ _ hskip) hc
    | broken c r hskip hc hread =>
      refine iff_of_true ⟨items, completeStrings_broken hskip hc hread⟩ fun q hq e he => ?_
      cases hq with
      | here hskip' _ =>
        rw [hsame hskip hskip', hread] at he
        cases he
        rfl
      | next hskip' _ hread' _ _ =>
        rw [hsame hskip hskip', hread] at hread'
        cases hread'
    | bound c r e hskip hc hne hread =>
      refine iff_of_false ?_ fun hall => hne (hall _ (.here hskip hc) e hread)
      rintro ⟨found, h⟩
      rw [completeStrings_bound hskip hc hne hread] at h
      cases h
    | other c r v after hskip hc hv hread =>
      refine iff_of_true ⟨[], completeStrings_other hskip hc hv hread⟩ fun q hq e he => ?_
      cases hq with
      | here hskip' _ =>
        rw [hsame hskip hskip', hread] at he
        cases he
      | next hskip' _ hread' _ _ =>
        rw [hsame hskip hskip', hread] at hread'
        cases hread'
        exact absurd rfl (hv _)
    | last c r us after hskip hc hread hafter =>
      refine iff_of_true ⟨_, completeStrings_last hskip hc hread hafter⟩ fun q hq e he => ?_
      cases hq with
      | here hskip' _ =>
        rw [hsame hskip hskip', hread] at he
        cases he
      | next hskip' _ hread' hafter' _ =>
        rw [hsame hskip hskip', hread] at hread'
        cases hread'
        exact absurd hafter' (hafter _)
    | more c r us after rest hskip hc hread hafter =>
      have hlength := more_length hskip hread hafter
      rw [completeStrings_more hskip hc hread hafter, ih (by omega)]
      constructor
      · intro hall q hq e he
        cases hq with
        | here hskip' _ =>
          rw [hsame hskip hskip', hread] at he
          cases he
        | next hskip' _ hread' hafter' hq =>
          rw [hsame hskip hskip', hread] at hread'
          cases hread'
          rw [hafter] at hafter'
          cases hafter'
          exact hall q hq e he
      · exact fun hall q hq => hall q (.next hskip hc hread hafter hq)

end ListTurns

/-! ## One turn of the loop over an object -/

section MemberTurns

variable {L : DecodeLimits} {key : Option (List ℕ)} {cs r after rest left : List Char} {name : List ℕ} {n : ℕ}

/-- **What a turn meets**: a member whose name the decoder does not read, or one without a colon; the list that
is asked for; or a value that is passed over, with a comma behind it or without one. -/
inductive MemberTurn (L : DecodeLimits) (key : Option (List ℕ)) (cs : List Char) : Prop
  | broken (hread : rawDecode L (skipSpace cs) = .error .syntactic)
  | bound (e : DecodeFailure) (he : e ≠ .syntactic) (hread : rawDecode L (skipSpace cs) = .error e)
  | noName (v : JsonValue) (after : List Char) (hread : rawDecode L (skipSpace cs) = .ok (v, after))
      (hv : ∀ name rest, v = .str name → skipSpace after ≠ ':' :: rest)
  | target (name : List ℕ) (after rest : List Char) (hread : rawDecode L (skipSpace cs) = .ok (.str name, after))
      (hcolon : skipSpace after = ':' :: rest) (htarget : isTarget key name (skipSpace rest) = true)
  | brokenValue (name : List ℕ) (after rest : List Char) (hread : rawDecode L (skipSpace cs) = .ok (.str name, after))
      (hcolon : skipSpace after = ':' :: rest) (htarget : isTarget key name (skipSpace rest) = false)
      (hvalue : rawDecode L (skipSpace rest) = .error .syntactic)
  | boundValue (name : List ℕ) (after rest : List Char) (e : DecodeFailure)
      (hread : rawDecode L (skipSpace cs) = .ok (.str name, after)) (hcolon : skipSpace after = ':' :: rest)
      (htarget : isTarget key name (skipSpace rest) = false) (he : e ≠ .syntactic)
      (hvalue : rawDecode L (skipSpace rest) = .error e)
  | last (name : List ℕ) (after rest left : List Char) (v : JsonValue)
      (hread : rawDecode L (skipSpace cs) = .ok (.str name, after)) (hcolon : skipSpace after = ':' :: rest)
      (htarget : isTarget key name (skipSpace rest) = false) (hvalue : rawDecode L (skipSpace rest) = .ok (v, left))
      (hleft : ∀ next, skipSpace left ≠ ',' :: next)
  | more (name : List ℕ) (after rest left next : List Char) (v : JsonValue)
      (hread : rawDecode L (skipSpace cs) = .ok (.str name, after)) (hcolon : skipSpace after = ':' :: rest)
      (htarget : isTarget key name (skipSpace rest) = false) (hvalue : rawDecode L (skipSpace rest) = .ok (v, left))
      (hleft : skipSpace left = ',' :: next)

theorem memberTurn (L : DecodeLimits) (key : Option (List ℕ)) (cs : List Char) : MemberTurn L key cs := by
  cases hread : rawDecode L (skipSpace cs) with
  | error e =>
    by_cases he : e = .syntactic
    · exact .broken (he ▸ hread)
    · exact .bound e he hread
  | ok q =>
    obtain ⟨v, after⟩ := q
    by_cases hname : ∃ name rest, v = .str name ∧ skipSpace after = ':' :: rest
    · obtain ⟨name, rest, rfl, hcolon⟩ := hname
      cases htarget : isTarget key name (skipSpace rest) with
      | true => exact .target name after rest hread hcolon htarget
      | false =>
        cases hvalue : rawDecode L (skipSpace rest) with
        | error e =>
          by_cases he : e = .syntactic
          · exact .brokenValue name after rest hread hcolon htarget (he ▸ hvalue)
          · exact .boundValue name after rest e hread hcolon htarget he hvalue
        | ok q =>
          obtain ⟨v, left⟩ := q
          by_cases hleft : ∃ next, skipSpace left = ',' :: next
          · obtain ⟨next, hleft⟩ := hleft
            exact .more name after rest left next v hread hcolon htarget hvalue hleft
          · exact .last name after rest left v hread hcolon htarget hvalue fun next h => hleft ⟨next, h⟩
    · exact .noName v after hread fun name rest hv hcolon => hname ⟨name, rest, hv, hcolon⟩

theorem salvageMembers_turn : salvageMembers L key (n + 1) cs =
    match rawDecode L (skipSpace cs) with
    | .error .syntactic => .ok []
    | .error e => .error e
    | .ok (.str name, after) =>
      match skipSpace after with
      | ':' :: rest =>
        if isTarget key name (skipSpace rest) then
          completeStrings L rest.length [] (skipSpace rest).tail
        else
          match rawDecode L (skipSpace rest) with
          | .error .syntactic => .ok []
          | .error e => .error e
          | .ok (_, after) =>
            match skipSpace after with
            | ',' :: rest => salvageMembers L key n rest
            | _ => .ok []
      | _ => .ok []
    | .ok _ => .ok [] := rfl

theorem salvageMembers_broken (hread : rawDecode L (skipSpace cs) = .error .syntactic) :
    salvageMembers L key (n + 1) cs = .ok [] := by
  rw [salvageMembers_turn, hread]

theorem salvageMembers_bound {e : DecodeFailure} (he : e ≠ .syntactic) (hread : rawDecode L (skipSpace cs) = .error e) :
    salvageMembers L key (n + 1) cs = .error e := by
  rw [salvageMembers_turn, hread]
  cases e with
  | syntactic => exact absurd rfl he
  | recursion => rfl
  | digits => rfl

theorem salvageMembers_noName {v : JsonValue} (hread : rawDecode L (skipSpace cs) = .ok (v, after))
    (hv : ∀ name rest, v = .str name → skipSpace after ≠ ':' :: rest) :
    salvageMembers L key (n + 1) cs = .ok [] := by
  rw [salvageMembers_turn, hread]
  cases v with
  | str name =>
    dsimp only
    split
    · rename_i rest heq
      exact absurd heq (hv name rest rfl)
    · rfl
  | null => rfl
  | bool b => rfl
  | number i x => rfl
  | arr vs => rfl
  | obj ms => rfl

theorem salvageMembers_target (hread : rawDecode L (skipSpace cs) = .ok (.str name, after))
    (hcolon : skipSpace after = ':' :: rest) (htarget : isTarget key name (skipSpace rest) = true) :
    salvageMembers L key (n + 1) cs = completeStrings L rest.length [] (skipSpace rest).tail := by
  rw [salvageMembers_turn, hread]
  dsimp only
  rw [hcolon]
  exact if_pos htarget

/-- Past the colon of a member that is not the list. -/
theorem salvageMembers_value (hread : rawDecode L (skipSpace cs) = .ok (.str name, after))
    (hcolon : skipSpace after = ':' :: rest) (htarget : isTarget key name (skipSpace rest) = false) :
    salvageMembers L key (n + 1) cs =
      match rawDecode L (skipSpace rest) with
      | .error .syntactic => .ok []
      | .error e => .error e
      | .ok (_, after) =>
        match skipSpace after with
        | ',' :: rest => salvageMembers L key n rest
        | _ => .ok [] := by
  rw [salvageMembers_turn, hread]
  dsimp only
  rw [hcolon]
  exact if_neg (by rw [htarget]; exact Bool.false_ne_true)

theorem salvageMembers_brokenValue (hread : rawDecode L (skipSpace cs) = .ok (.str name, after))
    (hcolon : skipSpace after = ':' :: rest) (htarget : isTarget key name (skipSpace rest) = false)
    (hvalue : rawDecode L (skipSpace rest) = .error .syntactic) : salvageMembers L key (n + 1) cs = .ok [] := by
  rw [salvageMembers_value hread hcolon htarget, hvalue]

theorem salvageMembers_boundValue {e : DecodeFailure} (hread : rawDecode L (skipSpace cs) = .ok (.str name, after))
    (hcolon : skipSpace after = ':' :: rest) (htarget : isTarget key name (skipSpace rest) = false)
    (he : e ≠ .syntactic) (hvalue : rawDecode L (skipSpace rest) = .error e) :
    salvageMembers L key (n + 1) cs = .error e := by
  rw [salvageMembers_value hread hcolon htarget, hvalue]
  cases e with
  | syntactic => exact absurd rfl he
  | recursion => rfl
  | digits => rfl

theorem salvageMembers_last {v : JsonValue} (hread : rawDecode L (skipSpace cs) = .ok (.str name, after))
    (hcolon : skipSpace after = ':' :: rest) (htarget : isTarget key name (skipSpace rest) = false)
    (hvalue : rawDecode L (skipSpace rest) = .ok (v, left)) (hleft : ∀ next, skipSpace left ≠ ',' :: next) :
    salvageMembers L key (n + 1) cs = .ok [] := by
  rw [salvageMembers_value hread hcolon htarget, hvalue]
  dsimp only
  split
  · rename_i next heq
    exact absurd heq (hleft next)
  · rfl

theorem salvageMembers_more {v : JsonValue} {next : List Char}
    (hread : rawDecode L (skipSpace cs) = .ok (.str name, after)) (hcolon : skipSpace after = ':' :: rest)
    (htarget : isTarget key name (skipSpace rest) = false) (hvalue : rawDecode L (skipSpace rest) = .ok (v, left))
    (hleft : skipSpace left = ',' :: next) : salvageMembers L key (n + 1) cs = salvageMembers L key n next := by
  rw [salvageMembers_value hread hcolon htarget, hvalue]
  dsimp only
  rw [hleft]
  rfl

/-- What is behind the colon of a member is shorter than the text. -/
theorem member_length {v : JsonValue} (hread : rawDecode L (skipSpace cs) = .ok (v, after))
    (hcolon : skipSpace after = ':' :: rest) : rest.length + 1 < cs.length := by
  have hvalue := scanValue_shortens L.depth _ _ _ hread
  have hbefore := skipSpace_length cs
  have hbehind := skipSpace_length after
  rw [hcolon, List.length_cons] at hbehind
  omega

/-- What is behind the comma of a member is shorter still. -/
theorem next_length {v : JsonValue} {next : List Char} (hvalue : rawDecode L (skipSpace rest) = .ok (v, left))
    (hleft : skipSpace left = ',' :: next) : next.length + 1 < rest.length := by
  have hread := scanValue_shortens L.depth _ _ _ hvalue
  have hbefore := skipSpace_length rest
  have hbehind := skipSpace_length left
  rw [hleft, List.length_cons] at hbehind
  omega

/-- **The bound never ends the loop over an object.** -/
theorem salvageMembers_fuel {m : ℕ} (hn : cs.length < n) (hm : cs.length < m) :
    salvageMembers L key n cs = salvageMembers L key m cs := by
  induction n generalizing m cs with
  | zero => omega
  | succ n ih =>
    cases m with
    | zero => omega
    | succ m =>
      cases memberTurn L key cs with
      | broken hread => rw [salvageMembers_broken hread, salvageMembers_broken hread]
      | bound e he hread => rw [salvageMembers_bound he hread, salvageMembers_bound he hread]
      | noName v after hread hv => rw [salvageMembers_noName hread hv, salvageMembers_noName hread hv]
      | target name after rest hread hcolon htarget =>
        rw [salvageMembers_target hread hcolon htarget, salvageMembers_target hread hcolon htarget]
      | brokenValue name after rest hread hcolon htarget hvalue =>
        rw [salvageMembers_brokenValue hread hcolon htarget hvalue,
          salvageMembers_brokenValue hread hcolon htarget hvalue]
      | boundValue name after rest e hread hcolon htarget he hvalue =>
        rw [salvageMembers_boundValue hread hcolon htarget he hvalue,
          salvageMembers_boundValue hread hcolon htarget he hvalue]
      | last name after rest left v hread hcolon htarget hvalue hleft =>
        rw [salvageMembers_last hread hcolon htarget hvalue hleft,
          salvageMembers_last hread hcolon htarget hvalue hleft]
      | more name after rest left next v hread hcolon htarget hvalue hleft =>
        have hrest := member_length hread hcolon
        have hnext := next_length hvalue hleft
        rw [salvageMembers_more hread hcolon htarget hvalue hleft,
          salvageMembers_more hread hcolon htarget hvalue hleft]
        exact ih (by omega) (by omega)

/-- **The places of an object** where the decoder is asked for a name, for a value that is passed over, or for an
item of the list. -/
inductive AskedMember (L : DecodeLimits) (key : Option (List ℕ)) : List Char → List Char → Prop
  | name (cs : List Char) : AskedMember L key cs (skipSpace cs)
  | value {cs after rest : List Char} {name : List ℕ} (hread : rawDecode L (skipSpace cs) = .ok (.str name, after))
      (hcolon : skipSpace after = ':' :: rest) (htarget : isTarget key name (skipSpace rest) = false) :
      AskedMember L key cs (skipSpace rest)
  | item {cs after rest q : List Char} {name : List ℕ} (hread : rawDecode L (skipSpace cs) = .ok (.str name, after))
      (hcolon : skipSpace after = ':' :: rest) (htarget : isTarget key name (skipSpace rest) = true)
      (hq : AskedItem L (skipSpace rest).tail q) : AskedMember L key cs q
  | next {cs after rest left next q : List Char} {name : List ℕ} {v : JsonValue}
      (hread : rawDecode L (skipSpace cs) = .ok (.str name, after)) (hcolon : skipSpace after = ':' :: rest)
      (htarget : isTarget key name (skipSpace rest) = false) (hvalue : rawDecode L (skipSpace rest) = .ok (v, left))
      (hleft : skipSpace left = ',' :: next) (hq : AskedMember L key next q) : AskedMember L key cs q

theorem meetsNoBound_of_ok {q : List Char} {x : JsonValue × List Char} (h : rawDecode L q = .ok x) :
    MeetsNoBound L q := by
  intro e he
  rw [h] at he
  cases he

theorem meetsNoBound_of_syntactic {q : List Char} (h : rawDecode L q = .error .syntactic) : MeetsNoBound L q := by
  intro e he
  rw [h] at he
  cases he
  rfl

theorem not_meetsNoBound {q : List Char} {e : DecodeFailure} (he : e ≠ .syntactic) (h : rawDecode L q = .error e) :
    ¬ MeetsNoBound L q := fun hall => he (hall e h)

/-- Without a name and a colon only the name is asked for. -/
theorem askedMember_name (hname : ∀ name after rest, rawDecode L (skipSpace cs) = .ok (.str name, after) →
    skipSpace after ≠ ':' :: rest) : (∀ q, AskedMember L key cs q → MeetsNoBound L q) ↔ MeetsNoBound L (skipSpace cs) := by
  refine ⟨fun hall => hall _ (.name cs), fun hfirst q hq => ?_⟩
  cases hq with
  | name => exact hfirst
  | value hread hcolon _ => exact absurd hcolon (hname _ _ _ hread)
  | item hread hcolon _ _ => exact absurd hcolon (hname _ _ _ hread)
  | next hread hcolon _ _ _ _ => exact absurd hcolon (hname _ _ _ hread)

/-- In the list under the key the items are asked for. -/
theorem askedMember_target (hread : rawDecode L (skipSpace cs) = .ok (.str name, after))
    (hcolon : skipSpace after = ':' :: rest) (htarget : isTarget key name (skipSpace rest) = true) :
    (∀ q, AskedMember L key cs q → MeetsNoBound L q) ↔ ∀ q, AskedItem L (skipSpace rest).tail q → MeetsNoBound L q := by
  refine ⟨fun hall q hq => hall q (.item hread hcolon htarget hq), fun hall q hq => ?_⟩
  cases hq with
  | name => exact meetsNoBound_of_ok hread
  | value hread' hcolon' htarget' =>
    cases hread.symm.trans hread'
    cases hcolon.symm.trans hcolon'
    rw [htarget] at htarget'
    cases htarget'
  | item hread' hcolon' _ hq =>
    cases hread.symm.trans hread'
    cases hcolon.symm.trans hcolon'
    exact hall q hq
  | next hread' hcolon' htarget' _ _ _ =>
    cases hread.symm.trans hread'
    cases hcolon.symm.trans hcolon'
    rw [htarget] at htarget'
    cases htarget'

/-- Of another member the value is asked for, and what follows its comma. -/
theorem askedMember_value (hread : rawDecode L (skipSpace cs) = .ok (.str name, after))
    (hcolon : skipSpace after = ':' :: rest) (htarget : isTarget key name (skipSpace rest) = false) :
    (∀ q, AskedMember L key cs q → MeetsNoBound L q) ↔ MeetsNoBound L (skipSpace rest) ∧
      ∀ v left next, rawDecode L (skipSpace rest) = .ok (v, left) → skipSpace left = ',' :: next →
        ∀ q, AskedMember L key next q → MeetsNoBound L q := by
  constructor
  · exact fun hall => ⟨hall _ (.value hread hcolon htarget), fun v left next hvalue hleft q hq =>
      hall q (.next hread hcolon htarget hvalue hleft hq)⟩
  · rintro ⟨hfirst, hall⟩ q hq
    cases hq with
    | name => exact meetsNoBound_of_ok hread
    | value hread' hcolon' _ =>
      cases hread.symm.trans hread'
      cases hcolon.symm.trans hcolon'
      exact hfirst
    | item hread' hcolon' htarget' _ =>
      cases hread.symm.trans hread'
      cases hcolon.symm.trans hcolon'
      rw [htarget] at htarget'
      cases htarget'
    | next hread' hcolon' _ hvalue hleft hq =>
      cases hread.symm.trans hread'
      cases hcolon.symm.trans hcolon'
      exact hall _ _ _ hvalue hleft q hq

/-- The text of a list is not shorter than its items. -/
theorem target_length {rest : List Char} (htarget : isTarget key name (skipSpace rest) = true) :
    (skipSpace rest).tail.length < rest.length := by
  have hskip := skipSpace_length rest
  cases hlist : skipSpace rest with
  | nil =>
    rw [hlist] at htarget
    cases htarget
  | cons c r =>
    rw [hlist, List.length_cons] at hskip
    rw [List.tail_cons]
    omega

/-- **The loop over an object raises** what the decoder raises where it is asked for something. -/
theorem salvageMembers_ok_iff (hn : cs.length < n) :
    (∃ found, salvageMembers L key n cs = .ok found) ↔ ∀ q, AskedMember L key cs q → MeetsNoBound L q := by
  induction n generalizing cs with
  | zero => omega
  | succ n ih =>
    cases memberTurn L key cs with
    | broken hread =>
      refine iff_of_true ⟨[], salvageMembers_broken hread⟩ ?_
      rw [askedMember_name fun _ _ _ h => by rw [hread] at h; cases h]
      exact meetsNoBound_of_syntactic hread
    | bound e he hread =>
      refine iff_of_false ?_ fun hall => not_meetsNoBound he hread (hall _ (.name cs))
      rintro ⟨found, h⟩
      rw [salvageMembers_bound he hread] at h
      cases h
    | noName v after hread hv =>
      refine iff_of_true ⟨[], salvageMembers_noName hread hv⟩ ?_
      have hname : ∀ name after' rest, rawDecode L (skipSpace cs) = .ok (.str name, after') →
          skipSpace after' ≠ ':' :: rest := by
        intro name after' rest h
        cases hread.symm.trans h
        exact hv name rest rfl
      exact (askedMember_name hname).mpr (meetsNoBound_of_ok hread)
    | target name after rest hread hcolon htarget =>
      rw [salvageMembers_target hread hcolon htarget, askedMember_target hread hcolon htarget]
      exact completeStrings_ok_iff (target_length htarget)
    | brokenValue name after rest hread hcolon htarget hvalue =>
      refine iff_of_true ⟨[], salvageMembers_brokenValue hread hcolon htarget hvalue⟩ ?_
      refine (askedMember_value hread hcolon htarget).mpr ⟨meetsNoBound_of_syntactic hvalue, fun _ _ _ h => ?_⟩
      cases hvalue.symm.trans h
    | boundValue name after rest e hread hcolon htarget he hvalue =>
      refine iff_of_false ?_ fun hall =>
        not_meetsNoBound he hvalue ((askedMember_value hread hcolon htarget).mp hall).1
      rintro ⟨found, h⟩
      rw [salvageMembers_boundValue hread hcolon htarget he hvalue] at h
      cases h
    | last name after rest left v hread hcolon htarget hvalue hleft =>
      refine iff_of_true ⟨[], salvageMembers_last hread hcolon htarget hvalue hleft⟩ ?_
      refine (askedMember_value hread hcolon htarget).mpr ⟨meetsNoBound_of_ok hvalue, fun _ _ _ h hcomma => ?_⟩
      cases hvalue.symm.trans h
      exact absurd hcomma (hleft _)
    | more name after rest left next v hread hcolon htarget hvalue hleft =>
      have hrest := member_length hread hcolon
      have hnext := next_length hvalue hleft
      rw [salvageMembers_more hread hcolon htarget hvalue hleft, ih (by omega),
        askedMember_value hread hcolon htarget]
      constructor
      · refine fun hall => ⟨meetsNoBound_of_ok hvalue, fun _ _ _ h hcomma => ?_⟩
        cases hvalue.symm.trans h
        cases hleft.symm.trans hcomma
        exact hall
      · exact fun hall => hall.2 v left next hvalue hleft

end MemberTurns

/-! ## The function -/

section Texts

variable {L : DecodeLimits} {key : Option (List ℕ)}

/-- **The places of an answer** where the decoder is asked for something. -/
def Asked (L : DecodeLimits) (key : Option (List ℕ)) (text q : List Char) : Prop :=
  ∃ c rest, findJsonSubstring (stripFences text) = some (c :: rest) ∧
    if c = '[' then AskedItem L rest q else AskedMember L key rest q

/-- **`salvage_string_list` returns** exactly when the decoder meets no bound of the interpreter where it is asked
for something: it raises `RecursionError` and the `ValueError` of `int` there, and nothing else. -/
theorem salvageStringList_ok_iff (L : DecodeLimits) (key : Option (List ℕ)) (text : List Char) :
    (∃ found, salvageStringList L key text = .ok found) ↔ ∀ q, Asked L key text q → MeetsNoBound L q := by
  unfold salvageStringList salvageCleaned Asked
  split
  · rename_i hnone
    refine iff_of_true ⟨[], rfl⟩ ?_
    rintro q ⟨_, _, hsome, -⟩
    cases hnone.symm.trans hsome
  · rename_i hempty
    refine iff_of_true ⟨[], rfl⟩ ?_
    rintro q ⟨_, _, hsome, -⟩
    cases hempty.symm.trans hsome
  · rename_i c rest hfind
    split
    · rename_i hlist
      rw [completeStrings_ok_iff (Nat.lt_succ_self _)]
      constructor
      · rintro hall q ⟨_, _, hsome, hq⟩
        cases hfind.symm.trans hsome
        exact hall q (by rwa [if_pos hlist] at hq)
      · exact fun hall q hq => hall q ⟨c, rest, hfind, by rwa [if_pos hlist]⟩
    · rename_i hobject
      rw [salvageMembers_ok_iff (Nat.lt_succ_self _)]
      constructor
      · rintro hall q ⟨_, _, hsome, hq⟩
        cases hfind.symm.trans hsome
        exact hall q (by rwa [if_neg hobject] at hq)
      · exact fun hall q hq => hall q ⟨c, rest, hfind, by rwa [if_neg hobject]⟩

end Texts

end LocalSqlAgent
