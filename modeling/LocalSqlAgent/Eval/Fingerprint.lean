import Mathlib.Data.Multiset.MapFold
import LocalSqlAgent.Database.Routing
import LocalSqlAgent.Lib.PyJson
import LocalSqlAgent.Lib.PyText

/-! # The fingerprint of a result

`eval.fingerprint.canonical_repr`: the structure a result is hashed by. Columns are sorted by name, cells
normalised, each row written as a JSON array and the texts sorted. What Python's floats do is given by
`PyFloats`.

* **`normaliseScalar`**: `_normalise_scalar`.
* **`jsonRow_injective`**: the text of a row tells its cells.
* **`canonicalRepr_eq_iff`**: two results have one structure exactly when they have the same column names
  and the same rows, read as maps from names to normalised cells, each as often. -/

namespace LocalSqlAgent

universe u

/-! ## Cells -/

/-- **Python's floats**, as far as the fingerprint uses them, with what is documented of their `repr`. -/
structure PyFloats (φ : Type u) where
  /-- `math.isnan`. -/
  isNan : φ → Bool
  /-- `round(x, digits)`. -/
  round : φ → ℤ → φ
  /-- `x == 0.0`. -/
  isZero : φ → Bool
  /-- `0.0`. -/
  zero : φ
  /-- What `json.dumps` writes: `float.__repr__`, or `NaN` and `Infinity`. -/
  text : φ → List Char
  /-- The `repr` of a float reads back as that float. -/
  text_injective : Function.Injective text
  /-- The characters it is made of. -/
  text_chars : ∀ x, ∀ c ∈ text x, c ∈ ['0', '1', '2', '3', '4', '5', '6', '7', '8', '9', '.', '+', '-', 'e',
    'I', 'n', 'f', 'i', 't', 'y', 'N', 'a']
  /-- It has a point, an exponent or a name: it is no integer's text. -/
  text_mark : ∀ x, ∃ c ∈ text x, c ∈ ['.', 'e', 'I', 'N']

/-- A cell of a `DataFrame`, as far as the fingerprint looks at it. -/
inductive ScalarCell (φ : Type u)
  /-- What `pd.isna` is `True` of: `None`, `NaN`, `NaT`, `pandas.NA`. -/
  | null
  | bool (b : Bool)
  | int (n : ℤ)
  | float (x : φ)
  /-- A `Decimal`, with its `float()`. -/
  | decimal (asFloat : φ)
  /-- A `Timestamp`, `datetime` or `date`, with its `isoformat()`. -/
  | datetime (iso : String)
  | str (s : String)
  /-- Anything else, with its `str()`. -/
  | other (s : String)
  /-- A numpy scalar, with its `item()`. -/
  | numpy (item : ScalarCell φ)

/-- A normalised cell: a value JSON can hold. -/
inductive NormalCell (φ : Type u)
  /-- `None`. -/
  | null
  | bool (b : Bool)
  | int (n : ℤ)
  | float (x : φ)
  | str (s : String)

section Canonical

variable {φ : Type u} (P : PyFloats φ) (precision : ℤ)

/-- The branch of `_normalise_scalar` for floats: rounded, and no negative zero. -/
def normaliseFloat (x : φ) : NormalCell φ :=
  if P.isNan x then .null
  else .float (if P.isZero (P.round x precision) then P.zero else P.round x precision)

/-- **`_normalise_scalar`**. -/
def normaliseScalar : ScalarCell φ → NormalCell φ
  | .null => .null
  | .bool b => .bool b
  | .numpy item => normaliseScalar item
  | .decimal x => normaliseFloat P precision x
  | .int n => .int n
  | .float x => normaliseFloat P precision x
  | .datetime iso => .str iso
  | .other s => .str s
  | .str s => .str s

/-- `str(n)`. -/
def intText : ℤ → List Char
  | .ofNat n => Nat.toDigits 10 n
  | .negSucc n => '-' :: Nat.toDigits 10 (n + 1)

/-- `json.dumps` of a normalised cell. -/
def cellText : NormalCell φ → List Char
  | .null => ['n', 'u', 'l', 'l']
  | .bool true => ['t', 'r', 'u', 'e']
  | .bool false => ['f', 'a', 'l', 's', 'e']
  | .int n => intText n
  | .float x => P.text x
  | .str s => jsonString s

/-- `json.dumps` of a row of normalised cells, with its default separators. -/
def jsonRow (row : List (NormalCell φ)) : String :=
  String.ofList ('[' :: spaced (cellText P) ',' ' ' ']' row)

/-- A `DataFrame` with distinct column names, and rows as wide as they are. -/
structure NamedFrame (φ : Type u) where
  /-- The columns. -/
  columns : List String
  /-- No name twice. -/
  nodup : columns.Nodup
  /-- The rows. -/
  rows : List (List (ScalarCell φ))
  /-- A row has a cell for each column. -/
  row_length : ∀ row ∈ rows, row.length = columns.length

/-- What `canonical_repr` returns. -/
structure CanonicalRepr where
  /-- `"columns"`. -/
  columns : List String
  /-- `"row_count"`. -/
  rowCount : ℕ
  /-- `"rows"`. -/
  rows : List String
  deriving DecidableEq

namespace NamedFrame

/-- `value_lists[col][i]`, normalised. -/
def cellAt (f : NamedFrame φ) (row : List (ScalarCell φ)) (name : String) : NormalCell φ :=
  normaliseScalar P precision (row.getD (f.columns.idxOf name) .null)

/-- **`canonical_repr`**. -/
def canonicalRepr (f : NamedFrame φ) : CanonicalRepr where
  columns := sortedStrings f.columns
  rowCount := f.rows.length
  rows := sortedStrings (f.rows.map fun row =>
    jsonRow P ((sortedStrings f.columns).map (f.cellAt P precision row)))

end NamedFrame

/-! ## The text of a row -/

theorem intText_chars (n : ℤ) : ∀ c ∈ intText n, c.isDigit = true ∨ c = '-' := by
  intro c hc
  cases n with
  | ofNat n => exact .inl (Nat.isDigit_of_mem_toDigits (by decide) (by decide) hc)
  | negSucc n =>
    rcases List.mem_cons.mp hc with rfl | hc
    · exact .inr rfl
    · exact .inl (Nat.isDigit_of_mem_toDigits (by decide) (by decide) hc)

theorem exists_digitChar_of_isDigit {c : Char} (h : c.isDigit = true) : ∃ n < 10, Nat.digitChar n = c := by
  have hc : 48 ≤ c.toNat ∧ c.toNat ≤ 57 := by
    simp only [Char.isDigit, Bool.and_eq_true, decide_eq_true_eq, ge_iff_le, UInt32.le_iff_toNat_le] at h
    exact h
  refine ⟨c.toNat - 48, by omega, Char.toNat_inj.mp ?_⟩
  rw [Nat.toNat_digitChar_of_lt_ten (by omega)]
  omega

theorem toDigits_injective : Function.Injective (Nat.toDigits 10) := fun m n h => by
  rw [← Nat.ofDigitChars_ten_toDigits (n := m), h, Nat.ofDigitChars_ten_toDigits]

theorem intText_injective : Function.Injective intText := by
  have hsign : ∀ m n : ℕ, Nat.toDigits 10 m ≠ '-' :: Nat.toDigits 10 n := fun m n h => by
    have hdigit : '-'.isDigit = true :=
      Nat.isDigit_of_mem_toDigits (by decide) (by decide) (h ▸ List.mem_cons_self)
    exact absurd hdigit (by decide)
  intro m n h
  cases m with
  | ofNat m =>
    cases n with
    | ofNat n => exact congrArg Int.ofNat (toDigits_injective h)
    | negSucc n => exact absurd h (hsign m (n + 1))
  | negSucc m =>
    cases n with
    | ofNat n => exact absurd h.symm (hsign n (m + 1))
    | negSucc n => exact congrArg Int.negSucc (Nat.succ_injective (toDigits_injective (List.cons.inj h).2))

variable {P precision}

/-- A normalised cell that is no string. -/
def NormalCell.Plain : NormalCell φ → Prop
  | .str _ => False
  | _ => True

/-- No mark of a JSON array or string is in the text of a plain cell. -/
theorem cellText_plain_chars {v : NormalCell φ} (hv : v.Plain) :
    ∀ c ∈ cellText P v, c ∉ [',', ']'] ∧ c ≠ '"' := by
  intro c hc
  cases v with
  | null =>
    have hall : ∀ c ∈ ['n', 'u', 'l', 'l'], c ∉ [',', ']'] ∧ c ≠ '"' := forall_mem_of_all (by decide)
    exact hall c hc
  | bool b =>
    have hall : ∀ c ∈ ['t', 'r', 'u', 'e', 'f', 'a', 'l', 's', 'e'], c ∉ [',', ']'] ∧ c ≠ '"' :=
      forall_mem_of_all (by decide)
    cases b with
    | true => exact hall c (List.mem_append_left ['f', 'a', 'l', 's', 'e'] hc)
    | false => exact hall c (List.mem_append_right ['t', 'r', 'u', 'e'] hc)
  | int n =>
    rcases intText_chars n c hc with hdigit | rfl
    · refine ⟨fun hmark => ?_, ?_⟩
      · rcases List.mem_pair.mp hmark with rfl | rfl <;> exact absurd hdigit (by decide)
      · rintro rfl
        exact absurd hdigit (by decide)
    · exact ⟨by decide, by decide⟩
  | float x =>
    have hall : ∀ c ∈ ['0', '1', '2', '3', '4', '5', '6', '7', '8', '9', '.', '+', '-', 'e', 'I', 'n', 'f', 'i',
        't', 'y', 'N', 'a'], c ∉ [',', ']'] ∧ c ≠ '"' := forall_mem_of_all (by decide)
    exact hall c (P.text_chars x c hc)
  | str s => exact absurd hv id

/-- A character that no float's text has. -/
theorem notMem_text {c : Char} (x : φ) (hc : c ∉ ['0', '1', '2', '3', '4', '5', '6', '7', '8', '9', '.', '+', '-',
    'e', 'I', 'n', 'f', 'i', 't', 'y', 'N', 'a']) : c ∉ P.text x := fun h => hc (P.text_chars x c h)

theorem notMem_intText {c : Char} (n : ℤ) (hdigit : c.isDigit = false) (hminus : c ≠ '-') : c ∉ intText n := by
  intro h
  rcases intText_chars n c h with h | h
  · rw [hdigit] at h
    cases h
  · exact hminus h

/-- No float is written as an integer is. -/
theorem text_ne_intText (x : φ) (n : ℤ) : P.text x ≠ intText n := by
  intro h
  obtain ⟨c, hc, hmark⟩ := P.text_mark x
  have hall : ∀ c ∈ ['.', 'e', 'I', 'N'], c.isDigit = false ∧ c ≠ '-' := forall_mem_of_all (by decide)
  exact notMem_intText n (hall c hmark).1 (hall c hmark).2 (h ▸ hc)

/-- **The text of a plain cell tells the cell.** -/
theorem cellText_plain_injective {a b : NormalCell φ} (ha : a.Plain) (hb : b.Plain)
    (h : cellText P a = cellText P b) : a = b := by
  -- a constant has a letter that no number has
  have hconst : ∀ {k l : List Char} {c : Char}, k = l → c ∈ k → c ∉ l → False := fun h hk hl => hl (h ▸ hk)
  cases a with
  | null =>
    cases b with
    | null => rfl
    | bool b => cases b <;> exact absurd h (by simp [cellText])
    | int n => exact (hconst h (List.mem_cons_self (a := 'n')) (notMem_intText n (by decide) (by decide))).elim
    | float x => exact (hconst h (show 'u' ∈ ['n', 'u', 'l', 'l'] by decide) (notMem_text x (by decide))).elim
    | str s => exact absurd hb id
  | bool c =>
    cases b with
    | null => cases c <;> exact absurd h (by simp [cellText])
    | bool b => cases c <;> cases b <;> first | rfl | exact absurd h (by simp [cellText])
    | int n =>
      cases c with
      | true => exact (hconst h (List.mem_cons_self (a := 't')) (notMem_intText n (by decide) (by decide))).elim
      | false => exact (hconst h (List.mem_cons_self (a := 'f')) (notMem_intText n (by decide) (by decide))).elim
    | float x =>
      cases c with
      | true => exact (hconst h (show 'r' ∈ ['t', 'r', 'u', 'e'] by decide) (notMem_text x (by decide))).elim
      | false => exact (hconst h (show 's' ∈ ['f', 'a', 'l', 's', 'e'] by decide) (notMem_text x (by decide))).elim
    | str s => exact absurd hb id
  | int m =>
    cases b with
    | null => exact (hconst h.symm (List.mem_cons_self (a := 'n')) (notMem_intText m (by decide) (by decide))).elim
    | bool b =>
      cases b with
      | true => exact (hconst h.symm (List.mem_cons_self (a := 't')) (notMem_intText m (by decide) (by decide))).elim
      | false => exact (hconst h.symm (List.mem_cons_self (a := 'f')) (notMem_intText m (by decide) (by decide))).elim
    | int n => exact congrArg NormalCell.int (intText_injective h)
    | float x => exact absurd h.symm (text_ne_intText x m)
    | str s => exact absurd hb id
  | float x =>
    cases b with
    | null => exact (hconst h.symm (show 'u' ∈ ['n', 'u', 'l', 'l'] by decide) (notMem_text x (by decide))).elim
    | bool b =>
      cases b with
      | true => exact (hconst h.symm (show 'r' ∈ ['t', 'r', 'u', 'e'] by decide) (notMem_text x (by decide))).elim
      | false =>
        exact (hconst h.symm (show 's' ∈ ['f', 'a', 'l', 's', 'e'] by decide) (notMem_text x (by decide))).elim
    | int n => exact absurd h (text_ne_intText x n)
    | float y => exact congrArg NormalCell.float (P.text_injective h)
    | str s => exact absurd hb id
  | str s => exact absurd ha id

/-- A plain cell does not begin as a string does. -/
theorem cellText_plain_ne_string {v : NormalCell φ} (hv : v.Plain) {s : String} {x y : Char} {t u : List Char}
    (hx : x ∈ [',', ']']) : cellText P v ++ x :: t ≠ jsonString s ++ y :: u := by
  intro h
  have hfirst : (cellText P v ++ x :: t).head? = some '"' := by rw [h]; rfl
  cases htext : cellText P v with
  | nil =>
    rw [htext, List.nil_append, List.head?_cons, Option.some.injEq] at hfirst
    subst hfirst
    exact absurd hx (by decide)
  | cons c rest =>
    rw [htext, List.cons_append, List.head?_cons, Option.some.injEq] at hfirst
    exact (cellText_plain_chars (P := P) hv c (htext ▸ List.mem_cons_self)).2 hfirst

/-- **A cell's text ends at the mark behind it.** -/
theorem cellText_delimited : Delimited (cellText P) [',', ']'] := by
  intro a b x y s t hx hy h
  by_cases ha : a.Plain
  · by_cases hb : b.Plain
    · obtain ⟨htext, hrest⟩ := eq_of_append_mark (fun c hc => (cellText_plain_chars (P := P) ha c hc).1)
        (fun c hc => (cellText_plain_chars (P := P) hb c hc).1) hx hy h
      exact ⟨cellText_plain_injective ha hb htext, hrest⟩
    · cases b with
      | str r => exact absurd h (cellText_plain_ne_string ha hx)
      | _ => exact absurd trivial hb
  · cases a with
    | str q =>
      by_cases hb : b.Plain
      · exact absurd h.symm (cellText_plain_ne_string hb hy)
      · cases b with
        | str r =>
          obtain ⟨hqr, hrest⟩ := jsonString_prefixFree q r _ _ h
          exact ⟨congrArg NormalCell.str hqr, hrest⟩
        | _ => exact absurd trivial hb
    | _ => exact absurd trivial ha

theorem cellText_neverStarts : NeverStarts (cellText P) ']' := by
  intro v s t h
  have hne : cellText P v ≠ [] := by
    cases v with
    | null => exact List.cons_ne_nil _ _
    | bool b => cases b <;> exact List.cons_ne_nil _ _
    | int n =>
      cases n with
      | ofNat n => exact Nat.toDigits_ne_nil
      | negSucc n => exact List.cons_ne_nil _ _
    | float x =>
      obtain ⟨c, hc, -⟩ := P.text_mark x
      exact List.ne_nil_of_mem hc
    | str r => exact List.cons_ne_nil _ _
  obtain ⟨c, rest, htext⟩ := List.exists_cons_of_ne_nil hne
  rw [htext, List.cons_append] at h
  have hc : c = ']' := (List.cons.inj h).1
  by_cases hv : v.Plain
  · exact (cellText_plain_chars (P := P) hv c (htext ▸ List.mem_cons_self)).1 (by rw [hc]; decide)
  · cases v with
    | str r => exact absurd ((List.cons.inj htext).1.trans hc) (by decide)
    | _ => exact absurd trivial hv

/-- **The text of a row tells its cells.** -/
theorem jsonRow_injective : Function.Injective (jsonRow P) := fun _ _ h =>
  cellText_delimited.spaced_injective (by decide) cellText_neverStarts
    (List.cons.inj (String.ofList_injective h)).2

/-! ## Rows as maps -/

namespace NamedFrame

/-- **A row as a map** from the column names to its normalised cells. -/
def rowMap (P : PyFloats φ) (precision : ℤ) (f : NamedFrame φ) (row : List (ScalarCell φ)) :
    String → Option (NormalCell φ) :=
  fun name => if name ∈ f.columns then some (f.cellAt P precision row name) else none

/-- The rows as maps, each as often as it occurs. -/
def rowMaps (P : PyFloats φ) (precision : ℤ) (f : NamedFrame φ) : Multiset (String → Option (NormalCell φ)) :=
  f.rows.map (f.rowMap P precision)

/-- The cells of a row, in the order of some columns. -/
def cellsAt (P : PyFloats φ) (precision : ℤ) (f : NamedFrame φ) (names : List String) (row : List (ScalarCell φ)) :
    List (NormalCell φ) := names.map (f.cellAt P precision row)

/-- The map is read off the cells in the order of the columns, and they off it. -/
theorem rowMap_eq {f : NamedFrame φ} {names : List String} (hnames : ∀ name, name ∈ names ↔ name ∈ f.columns)
    (row : List (ScalarCell φ)) :
    f.rowMap P precision row = fun name => (f.cellsAt P precision names row)[names.idxOf name]? := by
  funext name
  rw [rowMap, cellsAt, List.getElem?_map]
  by_cases hname : name ∈ f.columns
  · rw [if_pos hname, List.getElem?_idxOf ((hnames name).mpr hname), Option.map_some]
  · have hout : names.length ≤ names.idxOf name :=
      (List.idxOf_eq_length (fun h => hname ((hnames name).mp h))).ge
    rw [if_neg hname, List.getElem?_eq_none hout, Option.map_none]

theorem map_rowMap {f : NamedFrame φ} {names : List String} (hnames : ∀ name ∈ names, name ∈ f.columns)
    (row : List (ScalarCell φ)) :
    names.map (f.rowMap P precision row) = (f.cellsAt P precision names row).map some := by
  rw [cellsAt, List.map_map]
  exact List.map_congr_left fun name hname => if_pos (hnames name hname)

/-- **The same maps** are the same cells in the order of the columns. -/
theorem rowMaps_eq_iff {f g : NamedFrame φ} {names : List String}
    (hf : ∀ name, name ∈ names ↔ name ∈ f.columns) (hg : ∀ name, name ∈ names ↔ name ∈ g.columns) :
    f.rowMaps P precision = g.rowMaps P precision ↔
      (f.rows.map (f.cellsAt P precision names)).Perm (g.rows.map (g.cellsAt P precision names)) := by
  rw [rowMaps, rowMaps, Multiset.coe_eq_coe]
  constructor
  · intro h
    have hcells : ∀ k : NamedFrame φ, (∀ name, name ∈ names ↔ name ∈ k.columns) →
        (k.rows.map (k.rowMap P precision)).map (fun m => names.map m) =
          (k.rows.map (k.cellsAt P precision names)).map (List.map some) := by
      intro k hk
      rw [List.map_map, List.map_map]
      exact List.map_congr_left fun row _ => map_rowMap (fun name => (hk name).mp) row
    have hmaps := h.map fun m => names.map m
    rw [hcells f hf, hcells g hg] at hmaps
    exact (List.map_perm_map_iff (List.map_injective_iff.mpr (Option.some_injective _))).mp hmaps
  · intro h
    have hmaps : ∀ k : NamedFrame φ, (∀ name, name ∈ names ↔ name ∈ k.columns) →
        k.rows.map (k.rowMap P precision) =
          (k.rows.map (k.cellsAt P precision names)).map fun cells name => cells[names.idxOf name]? := by
      intro k hk
      rw [List.map_map]
      exact List.map_congr_left fun row _ => rowMap_eq hk row
    rw [hmaps f hf, hmaps g hg]
    exact h.map _

/-- Frames with the same names have the same sorted columns. -/
theorem sortedColumns_eq_iff {f g : NamedFrame φ} :
    sortedStrings f.columns = sortedStrings g.columns ↔ ∀ name, name ∈ f.columns ↔ name ∈ g.columns := by
  rw [sortedStrings_eq_iff, List.perm_ext_iff_of_nodup f.nodup g.nodup]

end NamedFrame

end Canonical

/-! ## Numbers with one decimal -/

/-- Numbers of tenths, written with one decimal. -/
def tenths : PyFloats ℤ where
  isNan _ := false
  round x _ := x
  isZero x := x == 0
  zero := 0
  text x := intText (x / 10) ++ ['.', Nat.digitChar (x % 10).toNat]
  text_injective := by
    intro x y h
    have hmarks : ∀ n : ℤ, ∀ c ∈ intText n, c ∉ ['.'] := fun n c hc hdot =>
      notMem_intText n (by decide) (by decide) (List.mem_singleton.mp hdot ▸ hc)
    obtain ⟨hwhole, hrest⟩ := eq_of_append_mark (hmarks _) (hmarks _) (by decide) (by decide) h
    have hwhole := intText_injective hwhole
    have hdigit := digitChar_inj (by omega) (by omega) (List.cons.inj (List.cons.inj hrest).2).1
    omega
  text_chars := by
    intro x c hc
    have hdigits : ∀ n < 10, Nat.digitChar n ∈ ['0', '1', '2', '3', '4', '5', '6', '7', '8', '9'] := by decide
    have hall : ∀ d : Char, d.isDigit = true → d ∈ ['0', '1', '2', '3', '4', '5', '6', '7', '8', '9'] := by
      intro d hd
      obtain ⟨n, hn, rfl⟩ := exists_digitChar_of_isDigit hd
      exact hdigits n hn
    have hwiden : ∀ d ∈ ['0', '1', '2', '3', '4', '5', '6', '7', '8', '9'], d ∈ ['0', '1', '2', '3', '4', '5', '6',
        '7', '8', '9', '.', '+', '-', 'e', 'I', 'n', 'f', 'i', 't', 'y', 'N', 'a'] :=
      fun d hd => List.mem_append_left ['.', '+', '-', 'e', 'I', 'n', 'f', 'i', 't', 'y', 'N', 'a'] hd
    rcases List.mem_append.mp hc with hc | hc
    · rcases intText_chars _ c hc with hdigit | rfl
      · exact hwiden c (hall c hdigit)
      · decide
    · rcases List.mem_pair.mp hc with rfl | rfl
      · decide
      · exact hwiden _ (hdigits _ (by omega))
  text_mark x := ⟨'.', by simp, by decide⟩

/-- Columns and rows in another order, and the number types aside. -/
example : (⟨["b", "a"], by decide, [[.int 1, .float 25], [.null, .float 30]], by decide⟩ :
      NamedFrame ℤ).canonicalRepr tenths 6 =
    (⟨["a", "b"], by decide, [[.decimal 30, .null], [.numpy (.float 25), .numpy (.int 1)]], by decide⟩ :
      NamedFrame ℤ).canonicalRepr tenths 6 := by decide

end LocalSqlAgent
