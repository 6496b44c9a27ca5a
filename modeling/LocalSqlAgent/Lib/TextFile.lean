import Mathlib.Data.List.Basic

/-! # Text files in UTF-8

What a program that opens a file with `encoding="utf-8"` writes and reads.

* **`utf8Bytes`**, **`utf8Text`**: encoding, and strict decoding of the whole file.
* **`fileLines`**: the lines a loop over the file takes, each with its newline, after the translation of
  `universalNewlines`.
* **`fileLines_lines`**: a file of whole lines and a rest without a newline is read as these. -/

namespace LocalSqlAgent

/-- `str.encode("utf-8")`. -/
def utf8Bytes (cs : List Char) : List UInt8 := cs.flatMap String.utf8EncodeChar

/-- `bytes.decode("utf-8")`, none when it raises. -/
def utf8Text (bytes : List UInt8) : Option (List Char) := bytes.toByteArray.utf8Decode?.map Array.toList

/-- The translation of `newline=None`. -/
def universalNewlines : List Char → List Char
  | [] => []
  | '\r' :: '\n' :: rest => '\n' :: universalNewlines rest
  | '\r' :: rest => '\n' :: universalNewlines rest
  | c :: rest => c :: universalNewlines rest

/-- Put a character in front of the first line. -/
def joinLine (c : Char) : List (List Char) → List (List Char)
  | [] => [[c]]
  | line :: lines => (c :: line) :: lines

/-- **The lines of a file**, each with its newline. -/
def fileLines : List Char → List (List Char)
  | [] => []
  | c :: rest => if c = '\n' then ['\n'] :: fileLines rest else joinLine c (fileLines rest)

/-! ## Encoding -/

@[simp] theorem utf8Bytes_nil : utf8Bytes [] = [] := rfl

@[simp] theorem utf8Bytes_append (s t : List Char) : utf8Bytes (s ++ t) = utf8Bytes s ++ utf8Bytes t :=
  List.flatMap_append

/-- **Decoding what was encoded.** -/
theorem utf8Text_utf8Bytes (cs : List Char) : utf8Text (utf8Bytes cs) = some cs := by
  have hdecode : cs.utf8Encode.utf8Decode? = some cs.toArray := List.utf8Decode?_utf8Encode
  unfold utf8Text utf8Bytes
  rw [show (cs.flatMap String.utf8EncodeChar).toByteArray = cs.utf8Encode from rfl, hdecode]
  rfl

theorem utf8Bytes_ne_nil {cs : List Char} (h : cs ≠ []) : utf8Bytes cs ≠ [] := by
  obtain ⟨c, cs, rfl⟩ := List.exists_cons_of_ne_nil h
  intro hnil
  unfold utf8Bytes at hnil
  rw [List.flatMap_cons] at hnil
  exact String.utf8EncodeChar_ne_nil (List.append_eq_nil_iff.mp hnil).1

/-! ## Lines -/

theorem universalNewlines_eq {cs : List Char} (h : '\r' ∉ cs) : universalNewlines cs = cs := by
  induction cs with
  | nil => rw [universalNewlines]
  | cons c cs ih =>
    obtain ⟨hc, hcs⟩ := not_or.mp (List.mem_cons.not.mp h)
    rw [universalNewlines, ih hcs]
    · exact fun rest heq => absurd heq.symm hc
    · exact fun heq => absurd heq.symm hc

/-- A line and what follows it. -/
theorem fileLines_line {t : List Char} (h : '\n' ∉ t) (rest : List Char) :
    fileLines (t ++ '\n' :: rest) = (t ++ ['\n']) :: fileLines rest := by
  induction t with
  | nil => rw [List.nil_append, fileLines, if_pos rfl, List.nil_append]
  | cons c t ih =>
    obtain ⟨hc, ht⟩ := not_or.mp (List.mem_cons.not.mp h)
    rw [List.cons_append, fileLines, if_neg (Ne.symm hc), ih ht]
    rfl

/-- What stands after the last newline. -/
theorem fileLines_rest {p : List Char} (h : '\n' ∉ p) : fileLines p = if p = [] then [] else [p] := by
  induction p with
  | nil => rfl
  | cons c p ih =>
    obtain ⟨hc, hp⟩ := not_or.mp (List.mem_cons.not.mp h)
    rw [fileLines, if_neg (Ne.symm hc), ih hp, if_neg (List.cons_ne_nil c p)]
    cases p with
    | nil => rfl
    | cons d p => rfl

/-- **Whole lines and a rest.** -/
theorem fileLines_lines {ts : List (List Char)} {p : List Char} (hts : ∀ t ∈ ts, '\n' ∉ t) (hp : '\n' ∉ p) :
    fileLines (ts.flatMap (fun t => t ++ ['\n']) ++ p) =
      ts.map (fun t => t ++ ['\n']) ++ if p = [] then [] else [p] := by
  induction ts with
  | nil => exact fileLines_rest hp
  | cons t ts ih =>
    obtain ⟨ht, hts⟩ := List.forall_mem_cons.mp hts
    rw [List.flatMap_cons, List.append_assoc, List.append_assoc, List.singleton_append, fileLines_line ht, ih hts]
    rfl

end LocalSqlAgent
