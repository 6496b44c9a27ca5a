import LocalSqlAgent.Lib.Pairs
import LocalSqlAgent.Security.CleanPatterns

/-! # Redacting an error text

`redact_error_text` makes a driver's message safe to leave the server: the credentials of a connection
string, then the quoted values, then the long digit runs, each by a regular expression over the text the one
before leaves, and the first 600 characters of that.

* **`odbcSecret`**, **`rawUserinfo`**, **`quotedLiteral`**, **`longDigits`**: the four patterns at one place.
* **`redactErrorText`**: the whole of it.
* **`quoteLiteral`**: a value as a message quotes it. -/

namespace LocalSqlAgent

variable (T : CharTable)

/-! ## The patterns -/

/-- `MASK`. -/
def mask : List Char := ['*', '*', '*']

/-- One character of a pattern: what follows it. -/
def afterMark (mark : Char) : List Char → Option (List Char)
  | [] => none
  | c :: cs => if c = mark then some cs else none

/-- `\s*=\s*`: what follows. -/
def afterEquals (cs : List Char) : Option (List Char) :=
  (afterMark '=' (cs.dropWhile isPySpace)).map (·.dropWhile isPySpace)

/-- The keys of an ODBC secret. -/
def secretKeys : List (List Char) :=
  [['p', 'w', 'd'], ['p', 'a', 's', 's', 'w', 'o', 'r', 'd'], ['p', 'a', 's', 's', 'w', 'd']]

/-- `(?:pwd|password|passwd)\s*=\s*`: the value that follows. -/
def secretValue (cs : List Char) : Option (List Char) :=
  secretKeys.findSome? fun letters => (afterLetters letters cs).bind afterEquals

/-- A character of an ODBC value. -/
def isOdbcValue (c : Char) : Bool := c ≠ ';' && c ≠ '&'

/-- `_ODBC_SECRET_RE`, `(?i)(\b(?:pwd|password|passwd)\s*=\s*)[^;&]*`, at one place. -/
def odbcSecret : Finder Char := fun b cs =>
  if wordBoundary T b.toList cs then
    (secretValue cs).map fun value =>
      (cs.take (cs.length - value.length) ++ mask, value.dropWhile isOdbcValue)
  else none

/-- What follows the last `@` before a `?`. -/
def afterUserinfo : List Char → Option (List Char)
  | [] => none
  | c :: cs => if c = '?' then none else (afterUserinfo cs).or (if c = '@' then some cs else none)

/-- A character of a user name. -/
def isUserChar (c : Char) : Bool := c ∉ [':', '/', '@'] && !isPySpace c

/-- `://`: what follows. -/
def afterScheme (cs : List Char) : Option (List Char) :=
  ((afterMark ':' cs).bind (afterMark '/')).bind (afterMark '/')

/-- `_RAW_USERINFO_RE`, `(?<=://)([^:/@\s]*):([^?]*)@(?=[^@?]*(?:\?|$))`, at one place; the `://` in front of it
is taken along and put back. -/
def rawUserinfo : Finder Char := fun _ cs =>
  (afterScheme cs).bind fun rest =>
    (afterMark ':' (rest.dropWhile isUserChar)).bind fun password =>
      (afterUserinfo password).map fun host =>
        ("://".toList ++ rest.takeWhile isUserChar ++ [':'] ++ (mask ++ ['@']), host)

/-- What follows a literal whose opening quote has been read: a doubled quote stays inside, and an unclosed
literal goes to the end. -/
def afterLiteral : List Char → List Char
  | [] => []
  | '\'' :: '\'' :: cs => afterLiteral cs
  | '\'' :: cs => cs
  | _ :: cs => afterLiteral cs

/-- `_mask_quoted`. -/
def maskQuoted (found : List Char) : List Char :=
  if found.getLast? = some '\'' ∧ 1 < found.length then ['\'', '…', '\''] else ['\'', '…']

/-- `_QUOTED_LITERAL_RE`, `'(?:[^']|'')*(?:'|$)`, at one place. -/
def quotedLiteral : Finder Char := fun _ cs =>
  match cs with
  | '\'' :: rest => some (maskQuoted (cs.take (cs.length - (afterLiteral rest).length)), afterLiteral rest)
  | _ => none

/-- `_LONG_DIGITS_RE`, `\d{4,}`, at one place. -/
def longDigits : Finder Char := fun _ cs =>
  if 4 ≤ (cs.takeWhile T.isDecimal).length then some (['#'], cs.dropWhile T.isDecimal) else none

/-- `_ERROR_TEXT_LIMIT`. -/
def errorTextLimit : ℕ := 600

/-! ## The text -/

/-- `_ODBC_SECRET_RE.sub`, from behind a character. -/
def maskOdbc (b : Option Char) (text : List Char) : List Char := subAll (odbcSecret T) b 0 text

/-- `_RAW_USERINFO_RE.sub`, from behind a character. -/
def maskUserinfo (b : Option Char) (text : List Char) : List Char := subAll rawUserinfo b 0 text

/-- The text without quoted values and long numbers, cut. -/
def redactValues (text : List Char) : List Char :=
  let out := subAll (longDigits T) none 0 (subAll quotedLiteral none 0 text)
  if out.length > errorTextLimit then out.take errorTextLimit ++ ['…'] else out

/-- **`redact_error_text`.** -/
def redactErrorText : Option (List Char) → List Char
  | none => []
  | some [] => []
  | some text => redactValues T (maskUserinfo none (maskOdbc T none text))

/-- A value in a message: its quotes doubled, between two more. -/
def quoteLiteral (v : List Char) : List Char := '\'' :: (doubled '\'' v ++ ['\''])

example : redactErrorText .ascii (some "value 'it''s' and 'x' at row 12345".toList) =
    "value '…' and '…' at row #".toList := by decide

example : redactErrorText .ascii (some "login: UID=a;PWD=s3cret;".toList) = "login: UID=a;PWD=***;".toList := by
  decide

end LocalSqlAgent
