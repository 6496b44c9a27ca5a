import LocalSqlAgent.Api.QueryCache
import LocalSqlAgent.Tsql.Quotes

/-! # Statements that share a cache entry

The SQL-level cache finds a result by the statement's text with every run of white space made one blank,
in string literals and quoted identifiers too.

* **`strip_collapseSpaces_eq_iff`**: two texts have one key when they are the same words.
* **`sqlKey_exact_iff`**: the key tells a statement from every other one up to white space outside quotes
  exactly when what the statement quotes does not depend on its white space. -/

namespace LocalSqlAgent

variable {c : Char} {a b cs : List Char} {mode prefixVersion scopeKey : String} {T : CharTable}

/-! ## The key's text -/

theorem rstrip_cons : rstrip (c :: cs) = if rstrip cs = [] ∧ isPySpace c = true then [] else c :: rstrip cs := by
  have hempty : (cs.reverse.dropWhile isPySpace).isEmpty = true ↔ rstrip cs = [] := by
    rw [List.isEmpty_iff, rstrip, List.reverse_eq_nil_iff]
  rw [rstrip, List.reverse_cons, List.dropWhile_append]
  by_cases hcs : rstrip cs = []
  · rw [if_pos (hempty.mpr hcs), hcs]
    cases hc : isPySpace c with
    | true => simp [hc]
    | false => simp [hc]
  · rw [if_neg fun h => hcs (hempty.mp h), if_neg fun h => hcs h.1, List.reverse_append]
    rfl

theorem collapseSpaces_char (hc : isPySpace c = false) : collapseSpaces (c :: cs) = c :: collapseSpaces cs := by
  rw [collapseSpaces, if_neg (by rw [hc]; exact Bool.false_ne_true)]

/-- **Collapsed and stripped on the right**: one blank in every gap. -/
theorem rstrip_collapseSpaces : rstrip (collapseSpaces cs) = tight isPySpace ' ' false cs := by
  induction cs with
  | nil => rfl
  | cons c cs ih =>
    cases hc : isPySpace c with
    | false =>
      rw [collapseSpaces_char hc, rstrip_cons, ih, hc, if_neg (fun h => Bool.false_ne_true h.2), tight_char hc]
      rfl
    | true =>
      rw [collapseSpaces, if_pos hc, tight_space hc]
      cases cs with
      | nil => rfl
      | cons d cs =>
        rw [List.head?_cons, Option.any_some]
        cases hd : isPySpace d with
        | true => rw [if_pos rfl, ih, tight_space hd, tight_space hd]
        | false =>
          rw [if_neg Bool.false_ne_true, rstrip_cons, ih, if_neg fun h => tight_char_ne_nil hd h.1, tight_char hd,
            tight_char hd]
          rfl

theorem lstrip_collapseSpaces : lstrip (collapseSpaces cs) = collapseSpaces (lstrip cs) := by
  induction cs with
  | nil => rfl
  | cons c cs ih =>
    cases hc : isPySpace c with
    | false =>
      rw [collapseSpaces_char hc, lstrip, lstrip, List.dropWhile_cons_of_neg (by simp [hc]),
        List.dropWhile_cons_of_neg (by simp [hc]), collapseSpaces_char hc]
    | true =>
      have hrest : lstrip (c :: cs) = lstrip cs := List.dropWhile_cons_of_pos hc
      rw [collapseSpaces, if_pos hc, hrest, ← ih]
      split
      · rfl
      · exact List.dropWhile_cons_of_pos rfl

/-- Behind a gap the words of a text are its stripped text behind one blank. -/
theorem tight_true : tight isPySpace ' ' true cs =
    if strip (collapseSpaces cs) = [] then [] else ' ' :: strip (collapseSpaces cs) := by
  rw [strip, lstrip_collapseSpaces, rstrip_collapseSpaces]
  induction cs with
  | nil => rfl
  | cons c cs ih =>
    cases hc : isPySpace c with
    | true => rw [tight_space hc, ih, lstrip, lstrip, List.dropWhile_cons_of_pos hc]
    | false =>
      rw [lstrip, List.dropWhile_cons_of_neg (by simp [hc]), if_neg (tight_char_ne_nil hc), tight_char hc, tight_char hc]
      rfl

/-- **One key, the same words.** -/
theorem strip_collapseSpaces_eq_iff :
    strip (collapseSpaces a) = strip (collapseSpaces b) ↔ Respaced isPySpace true a true b := by
  have hblank : isPySpace ' ' = true := rfl
  rw [← tight_eq_iff hblank, tight_true, tight_true]
  constructor
  · intro h
    rw [h]
  · intro h
    split_ifs at h with ha hb hb
    · rw [ha, hb]
    · exact (List.cons_eq_cons.mp h).2

theorem sqlKey_eq_iff {x y : String} :
    sqlKey x mode prefixVersion scopeKey = sqlKey y mode prefixVersion scopeKey ↔
      Respaced isPySpace true x.toList true y.toList := by
  rw [← strip_collapseSpaces_eq_iff, sqlKey, sqlKey, CacheKey.mk.injEq, String.ofList_inj]
  simp

/-! ## What shares an entry -/

/-- **When a statement shares its entry only with itself**, up to white space outside its quotes: exactly when
what it quotes does not depend on its white space. -/
theorem sqlKey_exact_iff (T : CharTable) (sql mode prefixVersion scopeKey : String) :
    (∀ other : String, sqlKey sql mode prefixVersion scopeKey = sqlKey other mode prefixVersion scopeKey →
      Tsql.skeleton T sql.toList = Tsql.skeleton T other.toList) ↔ Tsql.SpacingFixed T .start sql.toList := by
  rw [← Tsql.skeleton_eq_iff_spacingFixed]
  constructor
  · intro h b hb
    have hother := h (String.ofList b) (sqlKey_eq_iff.mpr (by rwa [String.toList_ofList]))
    rwa [String.toList_ofList] at hother
  · exact fun h other hkey => h _ (sqlKey_eq_iff.mp hkey)

/-- A blank more in a literal, and the statement finds the other one's rows. -/
theorem literals_share_entry : ¬ ∀ a b mode prefixVersion scopeKey : String,
    sqlKey a mode prefixVersion scopeKey = sqlKey b mode prefixVersion scopeKey →
      Tsql.skeleton .ascii a.toList = Tsql.skeleton .ascii b.toList := by
  intro h
  have hskeleton := h "SELECT ID FROM T WHERE Name = 'a  b'" "SELECT ID FROM T WHERE Name = 'a b'" "" "" "" (by decide)
  exact absurd hskeleton (by decide)

end LocalSqlAgent
