import Mathlib.Data.List.Lex
import Mathlib.Data.Multiset.MapFold
import Mathlib.Data.Nat.Log
import Mathlib.Data.Rat.Floor
import LocalSqlAgent.Database.Routing
import LocalSqlAgent.Lib.OrderedDict
import LocalSqlAgent.Lib.RankedPairing
import LocalSqlAgent.Security.TableAllowlist

/-! # Execution-accuracy comparison

`eval.compare`: whether two results are the same answer. Cells are normalised first; rows are compared as
multisets, in order where the reference decides it, as a subset and under another order of the columns.
Numbers are exact rationals; what `float(v)` makes of an integer is an argument, `float53` for a double.

* **`cellsEqual`**, **`rowsEqual`**: `_cells_equal` and `_rows_equal`.
* **`multisetsEqual`**: the same rows, order ignored, found by sorting on rounded numbers.
* **`multisetContains`**: the rows of the one result among those of the other.
* **`compareFrames`**: the verdict.
* **`alignColumns`**: the columns of a result put in another order. -/

namespace LocalSqlAgent

open OrderedDict

/-! ## Cells -/

/-- A cell of a `DataFrame`, as far as the comparison looks at it. -/
inductive FrameCell
  /-- `None`, `NaN`, `NaT`, `pandas.NA`. -/
  | null
  | bool (b : Bool)
  | int (n : ℤ)
  | float (x : ℚ)
  | decimal (x : ℚ)
  /-- A datetime: its day and itself in ISO form, and whether it is a midnight without a time zone. -/
  | datetime (day iso : String) (midnight : Bool)
  | date (iso : String)
  | time (iso : String)
  | bytes (data : List UInt8)
  | str (s : String)
  /-- Anything else, with its `str`. -/
  | other (s : String)
  /-- A numpy scalar, with its `item()`. -/
  | numpy (item : FrameCell)
  deriving Repr

/-- `Cell`: a normalised cell, by its kind. -/
inductive Cell
  /-- `("n", None)`. -/
  | null
  /-- `("i", n)`. -/
  | int (n : ℤ)
  /-- `("f", x)`. -/
  | num (x : ℚ)
  /-- `("t", …)`. -/
  | time (text : String)
  /-- `("s", …)`. -/
  | text (text : String)
  deriving DecidableEq, Repr

/-- A hexadecimal digit. -/
def hexDigit (n : ℕ) : Char := if n < 10 then Char.ofNat (48 + n) else Char.ofNat (87 + n)

/-- `bytes.hex()`. -/
def bytesHex (data : List UInt8) : String :=
  String.ofList (data.flatMap fun b => [hexDigit (b.toNat / 16), hexDigit (b.toNat % 16)])

/-- `normalise_cell`. -/
def normaliseCell : FrameCell → Cell
  | .null => .null
  | .numpy item => normaliseCell item
  | .bool b => .int (if b then 1 else 0)
  | .int n => .int n
  | .float x => .num x
  | .decimal x => .num x
  | .datetime day iso midnight => .time (if midnight then day else iso)
  | .date iso => .time iso
  | .time iso => .time iso
  | .bytes data => .text (bytesHex data)
  | .str s => .text s
  | .other s => .text s

namespace Cell

/-- Kind `"i"` or `"f"`. -/
def isNumeric : Cell → Bool
  | int _ => true
  | num _ => true
  | _ => false

/-- `float(val)` of a numeric cell. -/
def number? (float : ℤ → ℚ) : Cell → Option ℚ
  | int n => some (float n)
  | num x => some x
  | _ => none

theorem isNumeric_iff {float : ℤ → ℚ} {c : Cell} : c.isNumeric = true ↔ ∃ x, c.number? float = some x := by
  cases c <;> simp [isNumeric, number?]

end Cell

/-- The two numbers are within the tolerance. -/
def closeNumbers (tolerance fa fb : ℚ) : Bool :=
  fa == fb || decide (|fa - fb| ≤ tolerance * max 1 (max |fa| |fb|))

/-- `_cells_equal`. -/
def cellsEqual (float : ℤ → ℚ) (tolerance : ℚ) (a b : Cell) : Bool :=
  match a, b with
  | .int m, .int n => m == n
  | a, b =>
    match a.number? float, b.number? float with
    | some fa, some fb => closeNumbers tolerance fa fb
    | none, none => a == b
    | _, _ => false

/-! ## Rows -/

/-- A row of normalised cells. -/
abbrev CellRow := List Cell

/-- `_rows_equal`. -/
def rowsEqual (float : ℤ → ℚ) (tolerance : ℚ) (a b : CellRow) : Bool :=
  a.length == b.length && (a.zip b).all fun c => cellsEqual float tolerance c.1 c.2

/-- `_signature`: every cell that is no number, and where the numbers are. -/
def signature (row : CellRow) : List (Option Cell) := row.map fun c => if c.isNumeric then none else some c

/-- `_numeric_part`. -/
def numericPart (row : CellRow) : CellRow := row.filter Cell.isNumeric

/-- To the nearest integer, a half to the even one. -/
def roundHalfEven (x : ℚ) : ℤ :=
  let low := ⌊x⌋
  if x - low < 1 / 2 then low
  else if 1 / 2 < x - low then low + 1
  else if low % 2 = 0 then low else low + 1

/-- `round(x, digits)`. -/
def roundDigits (digits : ℕ) (x : ℚ) : ℚ := roundHalfEven (x * 10 ^ digits) / 10 ^ digits

/-- **`float(n)` of an integer**, as a double: 53 bits, a tie to the even one. -/
def float53 (n : ℤ) : ℚ :=
  let unit : ℕ := 2 ^ (n.natAbs.log2 - 52)
  roundHalfEven (n / unit) * unit

/-- `_digits_for`: as many digits as the tolerance has, none for exact comparison. -/
def digitsFor (tolerance : ℚ) : Option ℕ :=
  if tolerance ≤ 0 then none else some (Nat.clog 10 ⌈tolerance⁻¹⌉₊)

/-- A number as the sort sees it. -/
def rounded (digits : Option ℕ) (x : ℚ) : ℚ := digits.elim x fun d => roundDigits d x

/-- `_sort_key(digits)`. -/
def sortKey (float : ℤ → ℚ) (digits : Option ℕ) (vector : CellRow) : List ℚ :=
  vector.filterMap fun c => (c.number? float).map (rounded digits)

/-- `defaultdict(list)`: the numeric parts of the rows under their signatures. -/
def groupRows (rows : List CellRow) : OrderedDict (List (Option Cell)) (List CellRow) :=
  rows.foldl (fun groups row => groups.assign (signature row)
    ((groups.lookup (signature row)).getD [] ++ [numericPart row])) ∅

/-- The two dictionaries have the same keys. -/
def sameKeys {κ : Type*} [DecidableEq κ] {ν : Type*} (d d' : OrderedDict κ ν) : Bool :=
  d.keys.all (· ∈ d'.keys) && d'.keys.all (· ∈ d.keys)

section Verdicts

variable (float : ℤ → ℚ) (tolerance : ℚ)

/-- **`_multisets_equal`**. -/
def multisetsEqual (expected actual : List CellRow) : Bool :=
  let groupsE := groupRows expected
  let groupsA := groupRows actual
  let key := sortKey float (digitsFor tolerance)
  sameKeys groupsE groupsA && groupsE.entries.all fun entry =>
    let vectorsE := entry.2
    let vectorsA := (groupsA.lookup entry.1).getD []
    vectorsE.length == vectorsA.length && (vectorsE.head? == some [] ||
      ((sortByKey key vectorsE).zip (sortByKey key vectorsA)).all fun v => rowsEqual float tolerance v.1 v.2)

end Verdicts

/-! ## Frames -/

/-- A `DataFrame`: its column names, and rows as wide as they are. -/
structure ResultFrame where
  /-- The columns. -/
  columns : List String
  /-- The rows. -/
  rows : List (List FrameCell)
  /-- A row has a cell for each column. -/
  row_length : ∀ row ∈ rows, row.length = columns.length

namespace ResultFrame

/-- Number of columns. -/
def width (f : ResultFrame) : ℕ := f.columns.length

/-- `_rows_of`. -/
def cells (f : ResultFrame) : List CellRow := f.rows.map fun row => row.map normaliseCell

/-- `iloc[:, order]`: the columns in another order. -/
def reorder (f : ResultFrame) (order : List ℕ) : ResultFrame where
  columns := order.map fun j => f.columns.getD j ""
  rows := f.rows.map fun row => order.map fun j => row.getD j .null
  row_length := by simp

end ResultFrame

/-- `ComparisonOptions`: the tolerance, which is never negative. -/
structure ComparisonOptions where
  /-- `tolerance`. -/
  tolerance : ℚ := 1 / 1000000
  /-- What `__post_init__` checks. -/
  nonneg : 0 ≤ tolerance := by norm_num

/-- `ComparisonResult`. -/
structure ComparisonResult where
  /-- `equal`. -/
  equal : Bool
  /-- `reason`. -/
  reason : String
  /-- `ordered`. -/
  ordered : Bool := false
  deriving DecidableEq, Repr

/-- `_CONTAINMENT_ROW_LIMIT`. -/
def containmentRowLimit : ℕ := 20000

section Comparisons

variable (float : ℤ → ℚ) (opts : ComparisonOptions)

/-- The cells of two rows at one position agree. -/
def agreeAt (re ra : CellRow) (k : ℕ) : Bool :=
  match re[k]?, ra[k]? with
  | some x, some y => cellsEqual float opts.tolerance x y
  | _, _ => false

/-- What the ordered comparison asks of the rows at one position: the keys agree, or without keys the whole
rows. -/
def positionsAgree (keys : List ℕ) (re ra : CellRow) : Bool :=
  if keys = [] then rowsEqual float opts.tolerance re ra else keys.all fun k => agreeAt float opts re ra k

/-- **`compare_frames`**. The keys are positions of the expected columns. -/
def compareFrames (expected actual : ResultFrame) (ordered : Bool) (orderKeys : Option (List (Fin expected.width))) :
    ComparisonResult :=
  if expected.width ≠ actual.width then
    { equal := false, ordered
      reason := "column count differs (expected " ++ toString expected.width ++ ", got " ++
        toString actual.width ++ ")" }
  else if expected.cells.length ≠ actual.cells.length then
    { equal := false, ordered
      reason := "row count differs (expected " ++ toString expected.cells.length ++ ", got " ++
        toString actual.cells.length ++ ")" }
  else if !multisetsEqual float opts.tolerance expected.cells actual.cells then
    { equal := false, reason := "result values differ", ordered }
  else if ordered && !expected.cells.isEmpty && !((expected.cells.zip actual.cells).all fun r =>
      positionsAgree float opts ((orderKeys.getD []).map Fin.val) r.1 r.2) then
    { equal := false, reason := "row order differs from the reference ORDER BY", ordered := true }
  else { equal := true, reason := "match", ordered }

/-- `multiset_equal`. -/
def multisetEqual (expected actual : ResultFrame) : Bool :=
  expected.width == actual.width && expected.cells.length == actual.cells.length &&
    multisetsEqual float opts.tolerance expected.cells actual.cells

/-- **`multiset_contains`**. -/
def multisetContains (larger smaller : ResultFrame) : Bool :=
  let groupsBig := groupRows larger.cells
  let groupsSmall := groupRows smaller.cells
  let key := sortKey float (digitsFor opts.tolerance)
  larger.width == smaller.width && decide (smaller.cells.length ≤ larger.cells.length) &&
    decide (larger.cells.length ≤ containmentRowLimit) && groupsSmall.entries.all fun entry =>
      let vectorsSmall := entry.2
      match groupsBig.lookup entry.1 with
      | none => false
      | some vectorsBig => decide (vectorsSmall.length ≤ vectorsBig.length) && (vectorsSmall.head? == some [] ||
          takeEach (rowsEqual float opts.tolerance) (sortByKey key vectorsSmall) (sortByKey key vectorsBig))

/-! ## Columns -/

/-- What `_column_signature` keeps of a cell: a number rounded, anything else as it is. -/
def columnCell (digits : Option ℕ) (c : Cell) : ℚ ⊕ Cell :=
  (c.number? float).elim (.inr c) fun x => .inl (rounded digits x)

/-- `_column_signature`: the cells of a column, their order forgotten. -/
def columnSignature (digits : Option ℕ) (rows : List CellRow) (i : ℕ) : Multiset (ℚ ⊕ Cell) :=
  rows.map fun row => columnCell float digits (row.getD i .null)

/-- The columns paired by content: for every expected column the first one not used that holds the same
values. `none` where one finds no partner. -/
def pairByContent {σ : Type*} [DecidableEq σ] (sigA : List σ) : List σ → List ℕ → Option (List ℕ)
  | [], _ => some []
  | s :: sigE, used =>
    match (List.range sigA.length).find? fun j => !used.contains j && sigA[j]? == some s with
    | none => none
    | some j => (pairByContent sigA sigE (j :: used)).map (j :: ·)

/-- The columns paired by name, where both results have the same distinct names. -/
def pairByName (namesE namesA : List String) : Option (List ℕ) :=
  if namesE.Nodup ∧ sortedStrings namesE = sortedStrings namesA then
    some (namesE.map fun name => namesA.idxOf name)
  else none

/-- The orders of the columns that are tried. -/
def columnOrders (C : CaseMaps) (expected actual : ResultFrame) : List (List ℕ) :=
  let digits := digitsFor opts.tolerance
  let columns := List.range expected.width
  (pairByName (expected.columns.map C.lower) (actual.columns.map C.lower)).toList ++
    (pairByContent (columns.map (columnSignature float digits actual.cells))
      (columns.map (columnSignature float digits expected.cells)) []).toList

/-- **`align_columns`**. -/
def alignColumns (C : CaseMaps) (expected actual : ResultFrame) : Option ResultFrame :=
  if expected.width = 0 ∨ expected.width ≠ actual.width ∨ expected.cells.length ≠ actual.cells.length then none
  else ((columnOrders float opts C expected actual).find? fun order =>
    order != List.range expected.width &&
      multisetsEqual float opts.tolerance expected.cells (actual.reorder order).cells).map actual.reorder

end Comparisons

end LocalSqlAgent
