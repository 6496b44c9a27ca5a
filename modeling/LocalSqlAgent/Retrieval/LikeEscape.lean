import LocalSqlAgent.Lib.LikePattern
import LocalSqlAgent.Lib.PyText

/-!
# The bound pattern of a value lookup

`retrieval/value_resolver.py` looks a mention up with `LIKE ? ESCAPE '\'` and binds
`%mention%`, the wildcards of the mention escaped.

* **`escapeLikeWildcards`**, **`likeValue`**: the bound text; the escape character itself is not
  among the characters that are escaped.
* **`likeValue_exact_iff`**: the pattern matches exactly the values that contain the mention, for
  a mention without a backslash and for no other.
-/

namespace LocalSqlAgent

/-- `_LIKE_ESCAPE_CHAR`. -/
def likeEscapeChar : Char := '\\'

/-- The characters that `_LIKE_WILDCARDS_RE` matches. -/
def likeWildcards : List Char := ['%', '_', '[']

/-- **`_escape_like_wildcards`.** The pattern of the `re.sub` matches one character at a time, so
each match is replaced where it stands. -/
def escapeLikeWildcards (value : List Char) : List Char :=
  value.flatMap fun c => if c ∈ likeWildcards then [likeEscapeChar, c] else [c]

/-- The `like_value` that `_query_one` binds. -/
def likeValue (mention : List Char) : List Char :=
  '%' :: (escapeLikeWildcards mention ++ ['%'])

/-- The rules of a server that is asked with `ESCAPE '\'`, as `_build_query` always does. -/
structure TsqlLike extends LikeRules where
  escape_eq : escape = likeEscapeChar

section
variable {rules : LikeRules} {atoms : List LikeAtom} {c : Char} {mention rest : List Char}

/-! ## The escaped text -/

theorem escapeLikeWildcards_cons :
    escapeLikeWildcards (c :: mention) =
      (if c ∈ likeWildcards then [likeEscapeChar, c] else [c]) ++ escapeLikeWildcards mention :=
  rfl

theorem escapeLikeWildcards_wild (wild : c ∈ likeWildcards) :
    escapeLikeWildcards (c :: mention) = likeEscapeChar :: c :: escapeLikeWildcards mention := by
  rw [escapeLikeWildcards_cons, if_pos wild]
  rfl

theorem escapeLikeWildcards_plain (plain : c ∉ likeWildcards) :
    escapeLikeWildcards (c :: mention) = c :: escapeLikeWildcards mention := by
  rw [escapeLikeWildcards_cons, if_neg plain]
  rfl

theorem likeEscapeChar_plain : likeEscapeChar ∉ likeWildcards := by decide

/-! ## Reading it back -/

/-- After an escape character anything is a letter. -/
theorem readPattern_escape (escape_eq : rules.escape = likeEscapeChar) :
    readPattern rules .plain (likeEscapeChar :: c :: rest) =
      (readPattern rules .plain rest).map (.letter c :: ·) := by
  rw [readPattern_plain_cons, if_pos escape_eq.symm]
  rfl

/-- A character that is neither a wildcard nor the escape character is a letter. -/
theorem readPattern_letter (escape_eq : rules.escape = likeEscapeChar)
    (plain : c ∉ likeWildcards) (other : c ≠ likeEscapeChar) :
    readPattern rules .plain (c :: rest) =
      (readPattern rules .plain rest).map (.letter c :: ·) := by
  simp only [likeWildcards, List.mem_cons, List.not_mem_nil, or_false, not_or] at plain
  obtain ⟨percent, underscore, bracket⟩ := plain
  rw [readPattern_plain_cons, if_neg (by rwa [escape_eq]), if_neg bracket, if_neg percent,
    if_neg underscore]

theorem readPattern_percent (escape_eq : rules.escape = likeEscapeChar) :
    readPattern rules .plain ('%' :: rest) =
      (readPattern rules .plain rest).map (.any :: ·) := by
  rw [readPattern_plain_cons, escape_eq]
  rfl

theorem readPattern_underscore (escape_eq : rules.escape = likeEscapeChar) :
    readPattern rules .plain ('_' :: rest) =
      (readPattern rules .plain rest).map (.one :: ·) := by
  rw [readPattern_plain_cons, escape_eq]
  rfl

theorem readPattern_bracket (escape_eq : rules.escape = likeEscapeChar) :
    readPattern rules .plain ('[' :: rest) = readPattern rules (.inSet []) rest := by
  rw [readPattern_plain_cons, escape_eq]
  rfl

/-- **A text without the escape character is read back as its letters**, whatever follows. -/
theorem readPattern_escapeLikeWildcards (escape_eq : rules.escape = likeEscapeChar)
    (clean : likeEscapeChar ∉ mention) :
    readPattern rules .plain (escapeLikeWildcards mention ++ rest) =
      (readPattern rules .plain rest).map (mention.map .letter ++ ·) := by
  induction mention with
  | nil =>
    show _ = (readPattern rules .plain rest).map id
    rw [Option.map_id]
    rfl
  | cons c mention ih =>
    have other : c ≠ likeEscapeChar := fun h => clean (h ▸ List.mem_cons_self)
    have step := ih fun h => clean (List.mem_cons_of_mem _ h)
    by_cases wild : c ∈ likeWildcards
    · rw [escapeLikeWildcards_wild wild, List.cons_append, List.cons_append,
        readPattern_escape escape_eq, step, Option.map_map]
      rfl
    · rw [escapeLikeWildcards_plain wild, List.cons_append,
        readPattern_letter escape_eq wild other, step, Option.map_map]
      rfl

/-- The pattern of a mention that starts with a text free of the escape character. -/
theorem likeMatches_likeValue_append (escape_eq : rules.escape = likeEscapeChar)
    (clean : likeEscapeChar ∉ mention) (tail value : List Char) :
    likeMatches rules (likeValue (mention ++ tail)) value = true ↔
      ∃ atoms, readPattern rules .plain (escapeLikeWildcards tail ++ ['%']) = some atoms ∧
        ∃ before part after, value = before ++ part ++ after ∧
          List.Forall₂ (fun c x => rules.same c x = true) mention part ∧
          matchAtoms rules atoms after = true := by
  have cut : escapeLikeWildcards (mention ++ tail) =
      escapeLikeWildcards mention ++ escapeLikeWildcards tail := List.flatMap_append
  rw [likeMatches_eq_true_iff, likeValue, readPattern_percent escape_eq, cut, List.append_assoc,
    readPattern_escapeLikeWildcards escape_eq clean, Option.map_map]
  constructor
  · rintro ⟨all, read, covered⟩
    obtain ⟨atoms, inner, rfl⟩ := Option.map_eq_some_iff.mp read
    obtain ⟨before, back, rfl, front⟩ := matchAtoms_any.mp covered
    obtain ⟨part, after, rfl, parts, last⟩ := (matchAtoms_letters mention).mp front
    exact ⟨atoms, inner, before, part, after, by rw [List.append_assoc], parts, last⟩
  · rintro ⟨atoms, read, before, part, after, rfl, parts, covered⟩
    refine ⟨_, Option.map_eq_some_iff.mpr ⟨atoms, read, rfl⟩, matchAtoms_any.mpr
      ⟨before, part ++ after, by rw [List.append_assoc], ?_⟩⟩
    exact (matchAtoms_letters mention).mpr ⟨part, after, rfl, parts, covered⟩

/-- **Without a backslash the pattern is exact.** -/
theorem likeMatches_iff_contains (escape_eq : rules.escape = likeEscapeChar)
    (clean : likeEscapeChar ∉ mention) (value : List Char) :
    likeMatches rules (likeValue mention) value = true ↔ Contains rules mention value := by
  have whole := likeMatches_likeValue_append escape_eq clean [] value
  have last : readPattern rules .plain (escapeLikeWildcards [] ++ ['%']) = some [.any] :=
    readPattern_percent escape_eq
  rw [List.append_nil] at whole
  rw [whole]
  constructor
  · rintro ⟨_, _, before, part, after, eq, parts, _⟩
    exact ⟨before, part, after, eq, parts⟩
  · rintro ⟨before, part, after, eq, parts⟩
    refine ⟨[.any], last, before, part, after, eq, parts, matchAtoms_any.mpr ⟨after, [], ?_, ?_⟩⟩
    · rw [List.append_nil]
    · exact matchAtoms_nil.mpr rfl

/-! ## A backslash in the mention -/

/-- Inside a bracket set the pattern of a mention reads to the `]` that closes it, which is a
character of the mention. -/
theorem readPattern_inSet_escape {content : List Char}
    (read : readPattern rules (.inSet content) (escapeLikeWildcards mention ++ ['%']) = some atoms) :
    ∃ members after others, atoms = .oneOf members :: others ∧ after.length < mention.length ∧
      readPattern rules .plain (escapeLikeWildcards after ++ ['%']) = some others := by
  induction mention generalizing content with
  | nil =>
    -- the `%` at the end is inside the set, and nothing closes it
    exact absurd read (by simp [escapeLikeWildcards, readPattern_inSet_cons, readPattern])
  | cons c mention ih =>
    have longer : ∀ {content}, readPattern rules (.inSet content)
        (escapeLikeWildcards mention ++ ['%']) = some atoms →
        ∃ members after others, atoms = .oneOf members :: others ∧
          after.length < (c :: mention).length ∧
          readPattern rules .plain (escapeLikeWildcards after ++ ['%']) = some others := by
      intro content read
      obtain ⟨members, after, others, eq, shorter, read⟩ := ih read
      exact ⟨members, after, others, eq, Nat.lt_succ_of_lt shorter, read⟩
    by_cases wild : c ∈ likeWildcards
    · have no_end : c ≠ ']' := fun h => absurd wild (h ▸ by decide)
      rw [escapeLikeWildcards_wild wild, List.cons_append, List.cons_append,
        readPattern_inSet_cons, if_neg (fun h => absurd h.1 (by decide)),
        readPattern_inSet_cons, if_neg (fun h => no_end h.1)] at read
      exact longer read
    · rw [escapeLikeWildcards_plain wild, List.cons_append, readPattern_inSet_cons] at read
      by_cases closed : c = ']' ∧ rules.closes content = true
      · rw [if_pos closed] at read
        obtain ⟨others, inner, rfl⟩ := Option.map_eq_some_iff.mp read
        exact ⟨_, mention, others, rfl, Nat.lt_succ_self _, inner⟩
      · rw [if_neg closed] at read
        exact longer read

/-- **The pattern of what follows the first letters is short.** -/
def ReadsShort (rules : LikeRules) (mention : List Char) : Prop :=
  ∀ atoms, readPattern rules .plain (escapeLikeWildcards mention ++ ['%']) = some atoms →
    ShortMatch rules atoms mention.length

/-- One letter, then the rest of the mention. -/
theorem shortMatch_letter_of_read {d : Char} (rest_short : ReadsShort rules mention)
    (read : (readPattern rules .plain (escapeLikeWildcards mention ++ ['%'])).map
      (.letter d :: ·) = some atoms) :
    ShortMatch rules atoms (mention.length + 1) := by
  obtain ⟨others, inner, rfl⟩ := Option.map_eq_some_iff.mp read
  exact (rest_short others inner).letter

/-- **The character after a backslash.** Escaped or not, the two of them cover at most one
character less than they have, unless the second is an underscore. -/
theorem shortMatch_of_escape (escape_eq : rules.escape = likeEscapeChar)
    (short : ∀ after : List Char, after.length ≤ mention.length → ReadsShort rules after)
    (no_underscore : c ≠ '_')
    (read : readPattern rules .plain
      (escapeLikeWildcards (likeEscapeChar :: c :: mention) ++ ['%']) = some atoms) :
    ShortMatch rules atoms (mention.length + 1) := by
  rw [escapeLikeWildcards_plain likeEscapeChar_plain] at read
  by_cases wild : c ∈ likeWildcards
  · -- the backslash escapes the one that was put before the wildcard
    rw [escapeLikeWildcards_wild wild, List.cons_append, List.cons_append,
      readPattern_escape escape_eq, List.cons_append] at read
    obtain ⟨others, inner, rfl⟩ := Option.map_eq_some_iff.mp read
    refine ShortMatch.letter ?_
    simp only [likeWildcards, List.mem_cons, List.not_mem_nil, or_false] at wild
    obtain rfl | rfl | rfl := wild
    · rw [readPattern_percent escape_eq] at inner
      obtain ⟨last, final, rfl⟩ := Option.map_eq_some_iff.mp inner
      exact (short mention le_rfl last final).any
    · exact absurd rfl no_underscore
    · rw [readPattern_bracket escape_eq] at inner
      obtain ⟨members, after, last, rfl, shorter, final⟩ := readPattern_inSet_escape inner
      exact ((short after (by omega) last final).oneOf).mono (by omega)
  · -- the backslash vanishes
    rw [escapeLikeWildcards_plain wild, List.cons_append, List.cons_append,
      readPattern_escape escape_eq] at read
    exact shortMatch_letter_of_read (short mention le_rfl) read

/-- Every mention's pattern, without the first wildcard, matches a value no longer than the
mention if it matches any. -/
theorem readsShort (escape_eq : rules.escape = likeEscapeChar) (bound : Nat) :
    ∀ mention : List Char, mention.length ≤ bound → ReadsShort rules mention := by
  induction bound with
  | zero =>
    intro mention le atoms read
    obtain rfl := List.length_eq_zero_iff.mp (Nat.le_zero.mp le)
    obtain ⟨_, nothing, rfl⟩ := Option.map_eq_some_iff.mp
      ((@readPattern_percent rules [] escape_eq).symm.trans read)
    cases nothing
    exact shortMatch_nil.any
  | succ bound ih =>
    intro mention le atoms read
    cases mention with
    | nil => exact ih [] (Nat.zero_le _) atoms read
    | cons c mention =>
      have rest_short : ReadsShort rules mention := ih mention (Nat.le_of_succ_le_succ le)
      by_cases wild : c ∈ likeWildcards
      · rw [escapeLikeWildcards_wild wild, List.cons_append, List.cons_append,
          readPattern_escape escape_eq] at read
        exact shortMatch_letter_of_read rest_short read
      · by_cases other : c = likeEscapeChar
        · subst other
          cases mention with
          | nil =>
            -- a backslash at the end escapes the last wildcard
            obtain ⟨_, nothing, rfl⟩ := Option.map_eq_some_iff.mp
              ((@readPattern_escape rules '%' [] escape_eq).symm.trans read)
            cases nothing
            exact shortMatch_nil.letter
          | cons d mention =>
            have short : ∀ after : List Char, after.length ≤ mention.length →
                ReadsShort rules after := fun after shorter =>
              ih after (by simp only [List.length_cons] at le; omega)
            by_cases underscore : d = '_'
            · subst underscore
              rw [escapeLikeWildcards_plain likeEscapeChar_plain,
                escapeLikeWildcards_wild (by decide), List.cons_append, List.cons_append,
                readPattern_escape escape_eq, List.cons_append,
                readPattern_underscore escape_eq, Option.map_map] at read
              obtain ⟨last, inner, rfl⟩ := Option.map_eq_some_iff.mp read
              exact ((short mention le_rfl last inner).one).letter
            · exact (shortMatch_of_escape escape_eq short underscore read).mono (by simp)
        · rw [escapeLikeWildcards_plain wild, List.cons_append,
            readPattern_letter escape_eq wild other] at read
          exact shortMatch_letter_of_read rest_short read

/-- **With a backslash some value tells the pattern from the mention**: the mention itself, or a
value that is too short to contain it. -/
theorem not_mem_of_exact (escape_eq : rules.escape = likeEscapeChar)
    (exact_for : ∀ value, likeMatches rules (likeValue mention) value = true ↔
      Contains rules mention value) : likeEscapeChar ∉ mention := by
  intro mem
  obtain ⟨front, tail, rfl, clean⟩ := List.eq_append_cons_of_mem mem
  have matched : ∀ value, likeMatches rules (likeValue (front ++ likeEscapeChar :: tail)) value = true ↔ _ :=
    fun value => likeMatches_likeValue_append escape_eq clean _ value
  -- the mention contains itself, so its pattern can be read and matches something
  obtain ⟨atoms, read, before, part, after, eq, parts, covered⟩ :=
    (matched _).mp ((exact_for _).mpr (contains_self _))
  -- any value of the shape that the pattern asks for contains the mention, and is as long
  have long : ∀ value, matchAtoms rules atoms value = true →
      Contains rules (front ++ likeEscapeChar :: tail) (front ++ value) := fun value h =>
    (exact_for _).mp ((matched _).mpr
      ⟨atoms, read, [], front, value, by simp, same_self front, h⟩)
  cases tail with
  | nil =>
    obtain ⟨_, nothing, rfl⟩ := Option.map_eq_some_iff.mp
      ((@readPattern_escape rules '%' [] escape_eq).symm.trans read)
    cases nothing
    obtain ⟨x, tail, rfl, same, last⟩ := matchAtoms_letter.mp covered
    obtain rfl := matchAtoms_nil.mp last
    have x_eq := rules.same_mark '%' x (by simp) same
    have ends := congrArg List.getLast? eq
    rw [List.getLast?_append, List.getLast?_append] at ends
    subst x_eq
    exact absurd (Option.some.inj ends) (by decide)
  | cons c tail =>
    by_cases underscore : c = '_'
    · subst underscore
      have cut := read
      rw [escapeLikeWildcards_plain likeEscapeChar_plain,
        escapeLikeWildcards_wild (by decide), List.cons_append, List.cons_append,
        readPattern_escape escape_eq, List.cons_append,
        readPattern_underscore escape_eq, Option.map_map] at cut
      obtain ⟨last, inner, rfl⟩ := Option.map_eq_some_iff.mp cut
      obtain ⟨x, rest, -, -, covered⟩ := matchAtoms_letter.mp covered
      obtain ⟨y, rest, -, covered⟩ := matchAtoms_one.mp covered
      obtain ⟨short, covered, le⟩ := readsShort escape_eq tail.length tail le_rfl last inner
        ⟨rest, covered⟩
      -- the one character that the underscore takes can be a letter
      have same := (long (likeEscapeChar :: 'a' :: short) (matchAtoms_letter.mpr
        ⟨_, _, rfl, rules.same_refl _, matchAtoms_one.mpr ⟨_, _, rfl, covered⟩⟩)).forall₂_of_length
        (by simp only [List.length_append, List.length_cons]; omega)
      have pairs := List.forall₂_drop front.length same
      rw [List.drop_left, List.drop_left] at pairs
      cases pairs with
      | cons _ pairs =>
        cases pairs with
        | cons same _ => exact absurd (rules.same_mark '_' 'a' (by simp) same) (by decide)
    · obtain ⟨short, shortly, le⟩ := shortMatch_of_escape escape_eq
        (fun after _ => readsShort escape_eq after.length after le_rfl) underscore read
        ⟨after, covered⟩
      have least := (long short shortly).length_le
      simp only [List.length_append, List.length_cons] at least
      omega

end

/-- **The pattern is exact for the mentions without a backslash**, under every collation and
every reading of bracket sets: `%`, `_` and `[` are escaped, the escape character is not. -/
theorem likeValue_exact_iff (rules : TsqlLike) (mention : List Char) :
    (∀ value, likeMatches rules.toLikeRules (likeValue mention) value = true ↔
      Contains rules.toLikeRules mention value) ↔ likeEscapeChar ∉ mention :=
  ⟨not_mem_of_exact rules.escape_eq,
    fun clean value => likeMatches_iff_contains rules.escape_eq clean value⟩

/-- A wildcard is no letter: only itself is the same up to case. -/
theorem eq_of_toLower_mark {c x : Char} (mark : c ∈ ['%', '_', likeEscapeChar])
    (same : (c.toLower == x.toLower) = true) : x = c := by
  have eq := (beq_iff_eq.mp same).symm
  have plain : ∀ d ∈ ['%', '_', likeEscapeChar], d.toLower = d ∧ ¬ (97 ≤ d.toNat ∧ d.toNat ≤ 122) :=
    forall_mem_of_all (by decide)
  rw [(plain c mark).1] at eq
  obtain rfl | ⟨low, high, lower⟩ := toLower_eq eq
  · rfl
  · exact absurd ⟨by omega, by omega⟩ (plain c mark).2

/-- A collation that folds the ASCII letters; the text between brackets is the set. -/
def asciiLike : TsqlLike where
  same c x := c.toLower == x.toLower
  escape := likeEscapeChar
  closes _ := true
  member content x := content.contains x
  same_refl c := beq_self_eq_true _
  same_mark _ _ mark same := eq_of_toLower_mark mark same
  escape_eq := rfl

/-- The mention `a\b`: its backslash vanishes, and the value `ab` matches without containing it. -/
theorem backslash_vanishes :
    ¬ ∀ mention value, likeMatches asciiLike.toLikeRules (likeValue mention) value = true ↔
      Contains asciiLike.toLikeRules mention value := by
  intro exact_for
  have matched : likeMatches asciiLike.toLikeRules (likeValue ['a', '\\', 'b']) ['a', 'b'] = true := by
    decide
  exact absurd ((exact_for _ _).mp matched).length_le (by decide)

end LocalSqlAgent
