import Mathlib.Data.List.TakeWhile

/-! # `json.JSONDecoder`

The decoder of Python's `json` on a text of characters, up to the place where it stops.

* **`scanValue`**: `raw_decode` at the start of a text. Every bracket takes one level of the interpreter's
  recursion, and an integer has at most as many digits as `int` reads.
* **`jsonLoadsText`**: `json.loads`, white space around the value and nothing else.

A value keeps its numbers as they are written and its strings as code units; a dictionary keeps the members
as they are assigned. -/

namespace LocalSqlAgent

universe u

/-- A decoded value. -/
inductive JsonValue where
  /-- `None`. -/
  | null
  /-- `True` or `False`. -/
  | bool (b : Bool)
  /-- A number: its integer part, and its fraction and exponent. -/
  | number (integer tail : List Char)
  /-- A string, a code unit for each character or escape. -/
  | str (units : List ℕ)
  /-- A list. -/
  | arr (items : List JsonValue)
  /-- A dictionary. -/
  | obj (members : List (List ℕ × JsonValue))

/-- What the decoder raises. -/
inductive DecodeFailure where
  /-- `JSONDecodeError`. -/
  | syntactic
  /-- `RecursionError`. -/
  | recursion
  /-- The `ValueError` of `int` over too many digits. -/
  | digits
  deriving DecidableEq, Repr

/-- What the interpreter sets bounds to. -/
structure DecodeLimits where
  /-- The levels of recursion left. -/
  depth : ℕ
  /-- The digits `int` reads, `none` when there is no bound. -/
  digits : Option ℕ
  deriving DecidableEq, Repr

/-- What a step of the decoder returns: a value and the text after it. -/
abbrev Decoded (α : Type u) := Except DecodeFailure (α × List Char)

/-! ## Characters -/

/-- JSON white space. -/
def isJsonSpace (c : Char) : Bool := c = ' ' || c = '\t' || c = '\n' || c = '\r'

/-- The text after its leading white space. -/
def skipSpace (cs : List Char) : List Char := cs.dropWhile isJsonSpace

/-- A decimal digit. -/
def isDecimalDigit (c : Char) : Bool := 48 ≤ c.toNat && c.toNat ≤ 57

/-- The value of a hexadecimal digit. -/
def hexDigitValue (c : Char) : Option ℕ :=
  let n := c.toNat
  if 48 ≤ n ∧ n ≤ 57 then some (n - 48)
  else if 97 ≤ n ∧ n ≤ 102 then some (n - 87)
  else if 65 ≤ n ∧ n ≤ 70 then some (n - 55)
  else none

/-- The code unit of four hexadecimal digits. -/
def hexUnit (a b c d : Char) : Option ℕ := do
  let a ← hexDigitValue a
  let b ← hexDigitValue b
  let c ← hexDigitValue c
  let d ← hexDigitValue d
  return 4096 * a + 256 * b + 16 * c + d

/-- `BACKSLASH`: the characters after a backslash and what they stand for. -/
def backslashTable : List (Char × ℕ) :=
  [('"', 34), ('\\', 92), ('/', 47), ('b', 8), ('f', 12), ('n', 10), ('r', 13), ('t', 9)]

/-! ## Strings -/

/-- `scanstring` in its strict mode, after the opening quote. -/
def scanString : List Char → Option (List ℕ × List Char)
  | [] => none
  | '"' :: rest => some ([], rest)
  | '\\' :: 'u' :: a :: b :: c :: d :: rest =>
    match hexUnit a b c d with
    | some unit => (scanString rest).map fun r => (unit :: r.1, r.2)
    | none => none
  | '\\' :: e :: rest =>
    match backslashTable.lookup e with
    | some unit => (scanString rest).map fun r => (unit :: r.1, r.2)
    | none => none
  | c :: rest => if c.toNat < 32 then none else (scanString rest).map fun r => (c.toNat :: r.1, r.2)

/-- The characters of a string: an escaped surrogate pair is one. -/
def joinSurrogates : List ℕ → List ℕ
  | high :: low :: rest =>
    if 0xD800 ≤ high ∧ high ≤ 0xDBFF ∧ 0xDC00 ≤ low ∧ low ≤ 0xDFFF then
      (0x10000 + (high - 0xD800) * 1024 + (low - 0xDC00)) :: joinSurrogates rest
    else high :: joinSurrogates (low :: rest)
  | units => units

/-! ## Numbers -/

/-- The integer part without its sign. -/
def scanUnsigned : List Char → Option (List Char × List Char)
  | [] => none
  | c :: rest =>
    if c = '0' then some (['0'], rest)
    else if isDecimalDigit c then some (c :: rest.takeWhile isDecimalDigit, rest.dropWhile isDecimalDigit)
    else none

/-- The integer part. -/
def scanInteger : List Char → Option (List Char × List Char)
  | '-' :: rest => (scanUnsigned rest).map fun r => ('-' :: r.1, r.2)
  | cs => scanUnsigned cs

/-- The fraction, empty when there is none. -/
def scanFraction : List Char → List Char × List Char
  | '.' :: rest =>
    if rest.takeWhile isDecimalDigit = [] then ([], '.' :: rest)
    else ('.' :: rest.takeWhile isDecimalDigit, rest.dropWhile isDecimalDigit)
  | cs => ([], cs)

/-- The sign of an exponent, empty when there is none. -/
def scanSign : List Char → List Char × List Char
  | c :: rest => if c = '+' ∨ c = '-' then ([c], rest) else ([], c :: rest)
  | [] => ([], [])

/-- The exponent, empty when there is none. -/
def scanExponent : List Char → List Char × List Char
  | c :: rest =>
    let signed := scanSign rest
    if (c = 'e' ∨ c = 'E') ∧ signed.2.takeWhile isDecimalDigit ≠ [] then
      (c :: (signed.1 ++ signed.2.takeWhile isDecimalDigit), signed.2.dropWhile isDecimalDigit)
    else ([], c :: rest)
  | [] => ([], [])

/-- `match_number`: the integer part, the fraction and exponent, and the text after them. -/
def scanNumber (cs : List Char) : Option (List Char × List Char × List Char) :=
  (scanInteger cs).map fun r =>
    let fraction := scanFraction r.2
    let exponent := scanExponent fraction.2
    (r.1, fraction.1 ++ exponent.1, exponent.2)

/-- The digits of an integer part. -/
def digitCount (integer : List Char) : ℕ := integer.countP isDecimalDigit

/-- An integer that `int` refuses. Floats have no bound. -/
def DecodeLimits.refuses (L : DecodeLimits) (integer tail : List Char) : Bool :=
  tail.isEmpty && L.digits.any fun bound => decide (bound < digitCount integer)

/-! ## Values -/

/-- The constants of the decoder. -/
def jsonConstants : List (List Char × JsonValue) :=
  [("null".toList, .null), ("true".toList, .bool true), ("false".toList, .bool false),
   ("NaN".toList, .number "NaN".toList []), ("Infinity".toList, .number "Infinity".toList []),
   ("-Infinity".toList, .number "-Infinity".toList [])]

/-- A constant at the start of the text. -/
def scanConstant (cs : List Char) : Option (JsonValue × List Char) :=
  (jsonConstants.find? fun k => k.1.isPrefixOf cs).map fun k => (k.2, cs.drop k.1.length)

/-- A number at the start of the text, as `int` or `float` takes it. -/
def decodeNumber (L : DecodeLimits) (cs : List Char) : Decoded JsonValue :=
  match scanNumber cs with
  | none => .error .syntactic
  | some (integer, tail, rest) =>
    if L.refuses integer tail then .error .digits else .ok (.number integer tail, rest)

/-- A value that is no list and no dictionary. -/
def scanScalar (L : DecodeLimits) : List Char → Decoded JsonValue
  | '"' :: rest =>
    match scanString rest with
    | some (units, rest) => .ok (.str units, rest)
    | none => .error .syntactic
  | cs =>
    match scanConstant cs with
    | some r => .ok r
    | none => decodeNumber L cs

/-- The items up to the closing bracket, after the white space before the first one; the first argument
bounds their number. -/
def scanItems {α : Type u} (close : Char) (item : List Char → Decoded α) : ℕ → List Char → Decoded (List α)
  | 0, _ => .error .syntactic
  | n + 1, cs =>
    match item cs with
    | .error e => .error e
    | .ok (a, after) =>
      match skipSpace after with
      | [] => .error .syntactic
      | c :: rest =>
        if c = close then .ok ([a], rest)
        else if c = ',' then (scanItems close item n (skipSpace rest)).map fun r => (a :: r.1, r.2)
        else .error .syntactic

/-- The items after an opening bracket. -/
def scanGroup {α : Type u} (close : Char) (item : List Char → Decoded α) (cs : List Char) : Decoded (List α) :=
  match skipSpace cs with
  | c :: rest => if c = close then .ok ([], rest) else scanItems close item (rest.length + 1) (c :: rest)
  | [] => .error .syntactic

/-- A member of a dictionary: its name, a colon and its value. -/
def scanMember (value : List Char → Decoded JsonValue) : List Char → Decoded (List ℕ × JsonValue)
  | '"' :: rest =>
    match scanString rest with
    | none => .error .syntactic
    | some (name, after) =>
      match skipSpace after with
      | ':' :: rest => (value (skipSpace rest)).map fun r => ((name, r.1), r.2)
      | _ => .error .syntactic
  | _ => .error .syntactic

/-- **`scan_once`**: a value at the start of the text, with as many levels of recursion as the second
argument says. -/
def scanValue (L : DecodeLimits) : ℕ → List Char → Decoded JsonValue
  | 0, '[' :: _ => .error .recursion
  | 0, '{' :: _ => .error .recursion
  | n + 1, '[' :: rest => (scanGroup ']' (scanValue L n) rest).map fun r => (.arr r.1, r.2)
  | n + 1, '{' :: rest => (scanGroup '}' (scanMember (scanValue L n)) rest).map fun r => (.obj r.1, r.2)
  | _, cs => scanScalar L cs

/-- **`raw_decode`**. -/
def rawDecode (L : DecodeLimits) (cs : List Char) : Decoded JsonValue := scanValue L L.depth cs

/-- **`json.loads`** of a text without a byte order mark. -/
def jsonLoadsText (L : DecodeLimits) (cs : List Char) : Except DecodeFailure JsonValue :=
  match rawDecode L (skipSpace cs) with
  | .error e => .error e
  | .ok (v, rest) => if skipSpace rest = [] then .ok v else .error .syntactic

end LocalSqlAgent
