import LocalSqlAgent.Lib.Substitution
import LocalSqlAgent.Security.EnsureTop

/-! # Cleaning a model's answer

`clean_sql` takes the statement out of the text a model returns and rewrites what is no T-SQL in it, all by
regular expressions over the text.

* **`extracted`**: the statement, behind a fence and a preamble.
* **`limitDigits`**, **`limitClause`**: `_LIMIT_RE` and `_LIMIT_STRIP_RE` at one place.
* **`limited`**: `LIMIT n` turned into a cap by `ensure_top`.
* **`cleanSql`**: the whole of it. -/

namespace LocalSqlAgent

/-- What `clean_sql` raises. -/
inductive CleanError where
  | rejected (r : Rejection)
  /-- `int` of more digits than the interpreter converts. -/
  | tooManyDigits
  deriving DecidableEq, Repr

/-! ## The statement -/

/-- The three back quotes of a fence. -/
def ticks : List Char := "```".toList

/-- The text before the next fence. -/
def beforeTicks : List Char → Option (List Char)
  | [] => none
  | c :: cs => if ticks.isPrefixOf (c :: cs) then some [] else (beforeTicks cs).map (c :: ·)

/-- `_FENCE_RE` at one place: its group. -/
def fenceGroup (cs : List Char) : Option (List Char) :=
  if ticks.isPrefixOf cs then
    let rest := cs.drop 3
    (beforeTicks (lstrip ((afterLetters ['s', 'q', 'l'] rest).getD rest))).map rstrip
  else none

variable (T : CharTable) (digit : Char → ℕ) (repr : String → String)

/-- `_SELECT_START_RE` at one place: the text from there. -/
def selectStart (cs : List Char) : Option (List Char) :=
  if (afterWord T ['s', 'e', 'l', 'e', 'c', 't'] cs).isSome || (afterWord T ['w', 'i', 't', 'h'] cs).isSome then
    some cs
  else none

/-- **The statement in a text**: the three first steps of `clean_sql`. -/
def extracted (raw : List Char) : Except CleanError (List Char) :=
  if raw.all isPySpace then
    .error (.rejected (Rejection.correctable "Received empty SQL from model" .other))
  else
    let sql := (searchFrom (fun _ => fenceGroup) none raw).getD raw
    match searchFrom (fun _ => selectStart T) none sql with
    | none => .error (.rejected (Rejection.correctable ("No SELECT / CTE found in model response: " ++
        repr (String.ofList (sql.take 200))) .other))
    | some found => .ok (strip found)

/-! ## The limit -/

/-- `_LIMIT_RE`, `\bLIMIT\s+(\d+)`, at one place: the digits and what follows. -/
def limitDigits (b : Option Char) (cs : List Char) : Option (List Char × List Char) :=
  if wordBoundary T b.toList cs then
    ((afterLetters ['l', 'i', 'm', 'i', 't'] cs).bind afterSpaces).bind fun rest =>
      if rest.takeWhile T.isDecimal = [] then none
      else some (rest.takeWhile T.isDecimal, rest.dropWhile T.isDecimal)
  else none

/-- `_LIMIT_STRIP_RE`, `\s*\bLIMIT\s+\d+\b`, at one place. -/
def limitClause : Finder Char := fun b cs =>
  match limitDigits T ((cs.takeWhile isPySpace).getLast?.or b) (cs.dropWhile isPySpace) with
  | some (digits, rest) => if wordBoundary T digits rest then some ([], rest) else none
  | none => none

/-- `_LIMIT_STRIP_RE.sub("", sql)`. -/
def stripLimits (sql : List Char) : List Char := subAll (limitClause T) none 0 sql

/-- `int` of some digits, as far as the interpreter converts them. -/
def intOf (digits : List Char) : Option ℕ :=
  if digits.length ≤ 4300 then some (digits.foldl (fun n c => 10 * n + digit c) 0) else none

/-- **The fourth step**: a limit becomes a cap. -/
def limited (sql : List Char) : Except CleanError (List Char) :=
  match searchFrom (limitDigits T) none sql with
  | none => .ok sql
  | some (digits, _) =>
    match intOf digit digits with
    | none => .error .tooManyDigits
    | some n => (ensureTop T repr (stripLimits T sql) n).mapError .rejected

/-! ## The order of `TOP` and `DISTINCT` -/

/-- `_TOP_DISTINCT_RE`, `SELECT\s+TOP\s+(\d+)\s+DISTINCT`, at one place. -/
def topDistinct : Finder Char := fun _ cs =>
  ((((afterLetters ['s', 'e', 'l', 'e', 'c', 't'] cs).bind afterSpaces).bind
    (afterLetters ['t', 'o', 'p'])).bind afterSpaces).bind fun rest =>
    if rest.takeWhile T.isDecimal = [] then none
    else ((afterSpaces (rest.dropWhile T.isDecimal)).bind
      (afterLetters ['d', 'i', 's', 't', 'i', 'n', 'c', 't'])).map fun behind =>
        ("SELECT DISTINCT TOP ".toList ++ rest.takeWhile T.isDecimal, behind)

/-- **The fifth step**. -/
def fixTopDistinct (sql : List Char) : List Char := subAll (topDistinct T) none 0 sql

/-- **`clean_sql`.** -/
def cleanSql (raw : List Char) : Except CleanError (List Char) :=
  (extracted T repr raw).bind fun sql =>
    (limited T digit repr sql).map fun sql => strip (fixTopDistinct T sql)

end LocalSqlAgent
