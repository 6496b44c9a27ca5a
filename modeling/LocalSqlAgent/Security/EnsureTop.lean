import LocalSqlAgent.Lib.PyText
import LocalSqlAgent.Security.Rejection
import Mathlib.Algebra.Order.Ring.Int

/-! # The row cap of T-SQL texts

`ensure_top` for the default dialect, which splices a `TOP` into the text: `_scan_structure` finds the
parentheses and the string literals, the regular expressions the `SELECT` keywords outside both.

A text is the list of its characters, a match is where it starts; every pattern has a letter at its ends,
so no two matches of one pattern overlap and `finditer` finds all of them. -/

namespace LocalSqlAgent

/-! ## The regular expressions -/

/-- Letters of a pattern, case ignored; what follows the match. -/
def afterLetters : List Char → List Char → Option (List Char)
  | [], cs => some cs
  | _ :: _, [] => none
  | p :: ps, c :: cs => if sameLetter p c then afterLetters ps cs else none

/-- `\s+` before a letter or a digit: it takes all the white space. -/
def afterSpaces (cs : List Char) : Option (List Char) :=
  if cs.head?.any isPySpace then some (cs.dropWhile isPySpace) else none

variable (T : CharTable)

/-- `\b` between two parts of a text. -/
def wordBoundary (u v : List Char) : Bool := u.getLast?.any T.isWord != v.head?.any T.isWord

/-- A match that ends with a word: the letters, then `\b`. What follows the match. -/
def afterWord (letters cs : List Char) : Option (List Char) :=
  match afterLetters letters cs with
  | some rest => if wordBoundary T (cs.take letters.length) rest then some rest else none
  | none => none

/-- `_SELECT_TOKEN_RE`, `\bSELECT\b`, between two parts of a text. -/
def selectToken (u v : List Char) : Bool :=
  wordBoundary T u v && (afterWord T ['s', 'e', 'l', 'e', 'c', 't'] v).isSome

/-- `_ORDER_BY_RE`, `\bORDER\s+BY\b`, between two parts of a text. -/
def orderBy (u v : List Char) : Bool :=
  wordBoundary T u v && ((afterLetters ['o', 'r', 'd', 'e', 'r'] v).bind fun rest =>
    (afterSpaces rest).bind (afterWord T ['b', 'y'])).isSome

/-- `_DISTINCT_AFTER_SELECT_RE.match`, `\s+DISTINCT\b`: what follows the match. -/
def behindDistinct (rest : List Char) : Option (List Char) :=
  (afterSpaces rest).bind (afterWord T ['d', 'i', 's', 't', 'i', 'n', 'c', 't'])

/-- `_TOP_AFTER_RE.match`, `\s+TOP\s+\d+\b`; a shorter run of digits would end inside the word. -/
def topAfter (rest : List Char) : Bool :=
  ((afterSpaces rest).bind fun rest =>
    (afterLetters ['t', 'o', 'p'] rest).bind afterSpaces).any fun rest =>
      rest.takeWhile T.isDecimal ≠ [] &&
        wordBoundary T (rest.takeWhile T.isDecimal) (rest.dropWhile T.isDecimal)

/-! ## The scan -/

/-- The loop of `_scan_structure`: the depth and the in-string mark of each character. -/
def scanFrom (depth : ℤ) : Bool → List Char → List (ℤ × Bool)
  | _, [] => []
  | true, [_] => [(depth, true)]
  | true, c :: c' :: cs =>
    if c = '\'' then
      if c' = '\'' then (depth, true) :: (depth, true) :: scanFrom depth true cs
      else (depth, true) :: scanFrom depth false (c' :: cs)
    else (depth, true) :: scanFrom depth true (c' :: cs)
  | false, c :: cs =>
    if c = '\'' then (depth, true) :: scanFrom depth true cs
    else if c = '(' then (depth, false) :: scanFrom (depth + 1) false cs
    else if c = ')' then (depth, false) :: scanFrom (max 0 (depth - 1)) false cs
    else (depth, false) :: scanFrom depth false cs

/-- **`_scan_structure`.** -/
def scanStructure (sql : List Char) : List (ℤ × Bool) := scanFrom 0 false sql

/-- The places outside every parenthesis and string at which a pattern matches. -/
def topLevelMatches (pattern : List Char → List Char → Bool) (sql : List Char) : List ℕ :=
  (List.range (sql.length + 1)).filter fun start =>
    pattern (sql.take start) (sql.drop start) && (scanStructure sql)[start]? == some (0, false)

/-- **`_top_level_select_matches`**: where the matches start. -/
def topLevelSelectMatches (sql : List Char) : List ℕ := topLevelMatches (selectToken T) sql

/-- **`_has_top_level_order_by`.** -/
def hasTopLevelOrderBy (sql : List Char) : Bool := topLevelMatches (orderBy T) sql ≠ []

/-! ## The cap -/

/-- `f" TOP {n}"`. -/
def topText (n : ℕ) : List Char := " TOP ".toList ++ Nat.toDigits 10 n

/-- `f"SELECT TOP {n} * FROM ({body}) AS _ensure_top_capped"`. -/
def wrapped (n : ℕ) (body : List Char) : List Char :=
  "SELECT".toList ++ topText n ++ " * FROM (".toList ++ body ++ ") AS _ensure_top_capped".toList

/-- **`ensure_top`** for the dialect `tsql`. -/
def ensureTop (repr : String → String) (sql : List Char) (n : ℕ) : Except Rejection (List Char) :=
  match topLevelSelectMatches T sql with
  | [] => .error (Rejection.correctable ("ensure_top: no top-level SELECT found in " ++
      repr (String.ofList (sql.take 200)) ++ " — refusing to guess where to inject TOP") .other)
  | [start] =>
    let pos := start + "SELECT".length
    let rest := sql.drop pos
    match behindDistinct T rest with
    | some behind =>
      if topAfter T behind then .ok sql
      else .ok (sql.take pos ++ rest.take (rest.length - behind.length) ++ topText n ++ behind)
    | none => if topAfter T rest then .ok sql else .ok (sql.take pos ++ topText n ++ rest)
  | start :: _ :: _ =>
    if hasTopLevelOrderBy T (sql.drop start) then
      .error (Rejection.correctable ("ensure_top: cannot safely cap a UNION/INTERSECT/EXCEPT " ++
        "query that also has a top-level ORDER BY without a full " ++
        "SQL parser (wrapping it in a derived table would make " ++
        "that ORDER BY invalid T-SQL) — refusing to emit unsafe SQL") .other)
    else .ok (sql.take start ++ wrapped n (sql.drop start))

end LocalSqlAgent
