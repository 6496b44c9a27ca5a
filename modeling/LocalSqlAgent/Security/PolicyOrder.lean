import LocalSqlAgent.Security.ColumnPolicy

/-! # Policies and the order of entries

Whether a key's entries read the same in every order and with every repetition. The denied names do; of
two join-only entries for one restriction the first is kept, and of two that restrict one column of a
table the first is reported.

* **`SamePolicy`**: two policies deny the same names, have the same join-only entries, and report the
  same entry for every column.
* **`entry_resolveJoinOnly`**: the entry reported for a column is the first that covers it.
* **`orderFree_iff`**: the order does not matter exactly when each restriction has one spelling. -/

namespace LocalSqlAgent

/-- The join-only column of an entry. -/
def scopedOf (C : CaseMaps) (repr : String → String) (entry : String) : Option ScopedColumn :=
  match readDeniedEntry C repr entry with
  | .restricts s => some s
  | _ => none

section Policies

variable (E : GuardEnv)

/-- The entry reported for a column of a table on a source; nothing when the policy does not resolve. -/
def reportedEntry (policy : ColumnPolicy) (source : Option String) (t : SchemaTable) (column : String) :
    Option String :=
  match resolveJoinOnly E policy.joinOnly source with
  | .ok R => R.entry E.schema.case t column
  | .error _ => none

/-- **Two policies are the same** to the guard. -/
structure SamePolicy (p p' : ColumnPolicy) : Prop where
  denied : ∀ name, name ∈ p.denied ↔ name ∈ p'.denied
  /-- The same join-only columns with the same entries. -/
  joinOnly : ∀ s, s ∈ p.joinOnly ↔ s ∈ p'.joinOnly
  reported : ∀ source t column, reportedEntry E p source t column = reportedEntry E p' source t column

/-- **The entries read the same** however they are permuted and repeated. -/
def OrderFree (entries : List String) : Prop :=
  ∀ entries', (∀ e, e ∈ entries' ↔ e ∈ entries) → ∀ p p',
    parseColumnPolicy E.schema.case E.repr entries = .ok p →
    parseColumnPolicy E.schema.case E.repr entries' = .ok p' → SamePolicy E p p'

/-- A join-only column restricts a column of a table on a source. -/
def covers (source : Option String) (t : SchemaTable) (column : String) (s : ScopedColumn) : Bool :=
  match resolveEntry E s with
  | .ok (entrySource, tables) => !otherSource E source entrySource && tables.any (·.key = t.key) &&
      E.schema.case.casefold column = E.schema.case.casefold s.column
  | .error _ => false

/-- **Each restriction has one spelling** among the entries. -/
structure OneSpelling (entries : List String) : Prop where
  /-- Two entries for one restriction are the same text. -/
  same : ∀ e ∈ entries, ∀ e' ∈ entries, SameRestriction E.schema.case E.repr e e' →
    entryText e = entryText e'
  /-- Two entries that restrict one column of a table are the same text, where the entries resolve. -/
  overlapping : (∀ e ∈ entries, ∀ s, scopedOf E.schema.case E.repr e = some s →
      ∃ r, resolveEntry E s = .ok r) →
    ∀ source t column, ∀ e ∈ entries, ∀ e' ∈ entries, ∀ s s',
      scopedOf E.schema.case E.repr e = some s → scopedOf E.schema.case E.repr e' = some s' →
      covers E source t column s = true → covers E source t column s' = true → s.entry = s'.entry

end Policies

/-! ## What is kept of the entries -/

section Parsed

variable {C : CaseMaps} {repr : String → String}

theorem scopedOf_eq_some {entry : String} {s : ScopedColumn} :
    scopedOf C repr entry = some s ↔ readDeniedEntry C repr entry = .restricts s := by
  unfold scopedOf
  cases readDeniedEntry C repr entry <;> simp

/-- An entry that is added has joined the restrictions unless its restriction was there. -/
theorem add_joinOnly {policy policy' : ColumnPolicy} {entry : String}
    (h : policy.add C repr entry = .ok policy') :
    policy'.joinOnly = match scopedOf C repr entry with
      | some s => if s.key C ∈ policy.joinOnly.map (·.key C) then policy.joinOnly
        else policy.joinOnly ++ [s]
      | none => policy.joinOnly := by
  unfold ColumnPolicy.add at h
  unfold scopedOf
  cases hread : readDeniedEntry C repr entry with
  | denies names =>
    rw [hread] at h
    cases h
    rfl
  | restricts s =>
    rw [hread] at h
    cases h
    dsimp only
    split <;> rfl
  | malformed message =>
    rw [hread] at h
    cases h

/-- **Of the entries for one restriction the first is kept.** -/
theorem find_joinOnly {policy policy' : ColumnPolicy} {entries : List String}
    (h : parseFrom C repr policy entries = .ok policy') (k : String × String × String) :
    policy'.joinOnly.find? (·.key C = k) =
      (policy.joinOnly ++ entries.filterMap (scopedOf C repr)).find? (·.key C = k) := by
  induction entries generalizing policy with
  | nil =>
    cases h
    simp
  | cons entry rest ih =>
    rw [parseFrom, bind_ok_iff] at h
    obtain ⟨mid, hadd, hrest⟩ := h
    rw [ih hrest, add_joinOnly hadd, List.filterMap_cons]
    cases hscoped : scopedOf C repr entry with
    | none => rfl
    | some s =>
      dsimp only
      by_cases hmem : s.key C ∈ policy.joinOnly.map (·.key C)
      · rw [if_pos hmem, List.find?_append, List.find?_append, List.find?_cons]
        by_cases hkey : s.key C = k
        · -- the restriction is there already, so the search ends before the new entry
          obtain ⟨s', hs', hkey'⟩ := List.mem_map.mp hmem
          have hfound : (policy.joinOnly.find? (·.key C = k)).isSome = true :=
            List.find?_isSome.mpr ⟨s', hs', decide_eq_true (hkey'.trans hkey)⟩
          obtain ⟨s'', hs''⟩ := Option.isSome_iff_exists.mp hfound
          rw [hs'']
          rfl
        · rw [decide_eq_false hkey]
      · rw [if_neg hmem, List.append_assoc]
        rfl

/-- What is kept stays in front. -/
theorem joinOnly_prefix {policy policy' : ColumnPolicy} {entries : List String}
    (h : parseFrom C repr policy entries = .ok policy') : policy.joinOnly <+: policy'.joinOnly := by
  induction entries generalizing policy with
  | nil =>
    cases h
    exact List.prefix_refl _
  | cons entry rest ih =>
    rw [parseFrom, bind_ok_iff] at h
    obtain ⟨mid, hadd, hrest⟩ := h
    refine List.IsPrefix.trans ?_ (ih hrest)
    rw [add_joinOnly hadd]
    cases scopedOf C repr entry with
    | none => exact List.prefix_refl _
    | some s =>
      dsimp only
      split
      · exact List.prefix_refl _
      · exact List.prefix_append _ _

theorem nodup_joinOnly {policy policy' : ColumnPolicy} {entries : List String}
    (h : parseFrom C repr policy entries = .ok policy') (hnodup : (policy.joinOnly.map (·.key C)).Nodup) :
    (policy'.joinOnly.map (·.key C)).Nodup := by
  induction entries generalizing policy with
  | nil =>
    cases h
    exact hnodup
  | cons entry rest ih =>
    rw [parseFrom, bind_ok_iff] at h
    obtain ⟨mid, hadd, hrest⟩ := h
    refine ih hrest ?_
    rw [add_joinOnly hadd]
    cases scopedOf C repr entry with
    | none => exact hnodup
    | some s =>
      dsimp only
      split
      · exact hnodup
      · rename_i hnot
        rw [List.map_append]
        exact hnodup.append (List.nodup_singleton _) (by simpa using hnot)

/-- A list without two elements of one key has an element exactly when it finds it by its key. -/
theorem mem_iff_find_key {α κ : Type*} [DecidableEq κ] {key : α → κ} {l : List α}
    (hnodup : (l.map key).Nodup) {a : α} : a ∈ l ↔ l.find? (key · = key a) = some a := by
  constructor
  · intro ha
    induction l with
    | nil => cases ha
    | cons b rest ih =>
      rw [List.map_cons, List.nodup_cons] at hnodup
      rw [List.find?_cons]
      rcases List.mem_cons.mp ha with rfl | ha
      · rw [decide_eq_true rfl]
      · have hne : key b ≠ key a := fun heq => hnodup.1 (heq ▸ List.mem_map_of_mem ha)
        rw [decide_eq_false hne]
        exact ih hnodup.2 ha
  · exact List.mem_of_find?_eq_some

/-- **The join-only columns of a policy**: of each restriction the first entry's. -/
theorem mem_joinOnly_iff {policy : ColumnPolicy} {entries : List String}
    (h : parseColumnPolicy C repr entries = .ok policy) {s : ScopedColumn} :
    s ∈ policy.joinOnly ↔
      (entries.filterMap (scopedOf C repr)).find? (·.key C = s.key C) = some s := by
  rw [mem_iff_find_key (nodup_joinOnly h List.nodup_nil), find_joinOnly h, List.nil_append]

theorem joinOnly_subset {policy : ColumnPolicy} {entries : List String}
    (h : parseColumnPolicy C repr entries = .ok policy) {s : ScopedColumn} (hs : s ∈ policy.joinOnly) :
    ∃ e ∈ entries, scopedOf C repr e = some s :=
  List.mem_filterMap.mp (List.mem_of_find?_eq_some ((mem_joinOnly_iff h).mp hs))

/-- Two entries of one text are the same join-only column. -/
theorem scopedOf_congr {e e' : String} {s s' : ScopedColumn} (he : scopedOf C repr e = some s)
    (he' : scopedOf C repr e' = some s') (htext : entryText e = entryText e') : s = s' := by
  have hread : readDeniedEntry C repr e = readDeniedEntry C repr e' := by
    rw [← readDeniedEntry_entryText e, htext, readDeniedEntry_entryText]
  rw [scopedOf_eq_some] at he he'
  exact EntryReading.restricts.inj (he.symm.trans (hread.trans he'))

theorem scopedOf_entry {e : String} {s : ScopedColumn} (he : scopedOf C repr e = some s) :
    s.entry = entryText e :=
  (readDeniedEntry_restricts (scopedOf_eq_some.mp he)).1

end Parsed

/-! ## The reported entry -/

section Reported

variable {E : GuardEnv}

theorem lookup_restrictColumn {column entry c : String} {columns : List (String × String)} :
    (restrictColumn column entry columns).lookup c =
      (columns.lookup c).or (if c = column then some entry else none) := by
  unfold restrictColumn
  split
  · rename_i hmem
    obtain ⟨p, hp, rfl⟩ := List.mem_map.mp hmem
    by_cases hc : c = p.1
    · -- the column is restricted already, whatever by
      subst hc
      obtain ⟨v, hv⟩ : ∃ v, columns.lookup p.1 = some v := by
        have hsome : (columns.lookup p.1).isSome = true :=
          List.lookup_isSome_iff.mpr ⟨p, hp, beq_self_eq_true _⟩
        exact Option.isSome_iff_exists.mp hsome
      rw [hv, Option.some_or]
    · rw [if_neg hc, Option.or_none]
  · rw [List.lookup_append]
    congr 1
    by_cases hc : c = column
    · simp [hc]
    · rw [List.lookup_cons, beq_eq_false_iff_ne.mpr hc, if_neg hc]
      rfl

theorem lookup_restrictTable {table column entry key : String}
    {byTable : List (String × List (String × String))} :
    (restrictTable table column entry byTable).lookup key =
      if key = table then some (restrictColumn column entry ((byTable.lookup key).getD []))
      else byTable.lookup key := by
  induction byTable with
  | nil =>
    by_cases hkey : key = table
    · simp [restrictTable, restrictColumn, hkey]
    · rw [restrictTable, List.lookup_cons, beq_eq_false_iff_ne.mpr hkey, if_neg hkey]
  | cons head rest ih =>
    obtain ⟨name, columns⟩ := head
    rw [restrictTable]
    by_cases hname : name = table
    · subst hname
      rw [if_pos rfl]
      by_cases hkey : key = name
      · simp [hkey]
      · rw [List.lookup_cons, List.lookup_cons, beq_eq_false_iff_ne.mpr hkey, if_neg hkey]
    · rw [if_neg hname, List.lookup_cons, ih, List.lookup_cons]
      by_cases hkey : key = name
      · subst hkey
        rw [beq_self_eq_true, if_neg hname]
        exact (if_neg hname).symm
      · rw [beq_eq_false_iff_ne.mpr hkey]

/-- One table's restriction is reported unless the column had one. -/
theorem entry_restrict {R : JoinOnlyRestrictions} {s : ScopedColumn} {t' t : SchemaTable} {column : String} :
    (R.restrict E s t').entry E.schema.case t column = (R.entry E.schema.case t column).or
      (if t'.key = t.key ∧ E.schema.case.casefold column = E.schema.case.casefold s.column then
        some s.entry else none) := by
  unfold JoinOnlyRestrictions.entry JoinOnlyRestrictions.columnsOf JoinOnlyRestrictions.restrict
  dsimp only
  rw [lookup_restrictTable]
  by_cases hkey : t.key = t'.key
  · rw [if_pos hkey, Option.getD_some, lookup_restrictColumn]
    simp only [hkey, true_and]
  · rw [if_neg hkey, if_neg fun h => hkey h.1.symm, Option.or_none]

theorem entry_foldl_restrict {s : ScopedColumn} {tables : List SchemaTable} {R : JoinOnlyRestrictions}
    {t : SchemaTable} {column : String} :
    (tables.foldl (·.restrict E s) R).entry E.schema.case t column =
      (R.entry E.schema.case t column).or
        (if tables.any (·.key = t.key) = true ∧
            E.schema.case.casefold column = E.schema.case.casefold s.column then some s.entry else none) := by
  induction tables generalizing R with
  | nil => simp
  | cons t' rest ih =>
    rw [List.foldl_cons, ih, entry_restrict, Option.or_assoc, List.any_cons]
    congr 1
    by_cases hcolumn : E.schema.case.casefold column = E.schema.case.casefold s.column
    · by_cases hkey : t'.key = t.key
      · simp [hkey, hcolumn]
      · simp [hkey, hcolumn]
    · simp [hcolumn]

/-- **The entry reported for a column** is that of the first join-only column that covers it. -/
theorem entry_resolveFrom {source : Option String} {joinOnly : List ScopedColumn}
    {R R' : JoinOnlyRestrictions} (h : resolveFrom E source R joinOnly = .ok R') {t : SchemaTable}
    {column : String} :
    R'.entry E.schema.case t column = (R.entry E.schema.case t column).or
      ((joinOnly.find? (covers E source t column)).map (·.entry)) := by
  induction joinOnly generalizing R with
  | nil =>
    cases h
    simp
  | cons s rest ih =>
    rw [resolveFrom, bind_ok_iff] at h
    obtain ⟨⟨entrySource, tables⟩, hresolve, hrest⟩ := h
    rw [ih hrest, List.find?_cons]
    by_cases hother : otherSource E source entrySource = true
    · have hnot : covers E source t column s = false := by simp [covers, hresolve, hother]
      rw [if_pos hother, hnot]
    · rw [if_neg hother, entry_foldl_restrict, Option.or_assoc]
      congr 1
      have hcovers : covers E source t column s = true ↔ tables.any (·.key = t.key) = true ∧
          E.schema.case.casefold column = E.schema.case.casefold s.column := by
        simp [covers, hresolve, hother]
      by_cases hc : covers E source t column s = true
      · rw [if_pos (hcovers.mp hc), hc]
        rfl
      · rw [if_neg fun h => hc (hcovers.mpr h), Bool.eq_false_iff.mpr hc, Option.none_or]

/-- A policy resolves exactly when each of its join-only columns does. -/
theorem exists_resolveFrom_ok {source : Option String} {joinOnly : List ScopedColumn}
    {R : JoinOnlyRestrictions} :
    (∃ R', resolveFrom E source R joinOnly = .ok R') ↔ ∀ s ∈ joinOnly, ∃ r, resolveEntry E s = .ok r := by
  induction joinOnly generalizing R with
  | nil => simp [resolveFrom]
  | cons s rest ih =>
    simp only [resolveFrom, bind_ok_iff, List.forall_mem_cons]
    constructor
    · rintro ⟨R', r, hr, hrest⟩
      exact ⟨⟨r, hr⟩, ih.mp ⟨R', hrest⟩⟩
    · rintro ⟨⟨r, hr⟩, hrest⟩
      have hok : ∃ R', resolveFrom E source (if otherSource E source r.1 then R
          else r.2.foldl (·.restrict E s) R) rest = .ok R' := ih.mpr hrest
      obtain ⟨R', hR'⟩ := hok
      exact ⟨R', r, hr, hR'⟩

/-- The reported entry, where the policy resolves. -/
theorem reportedEntry_eq {policy : ColumnPolicy} (h : ∀ s ∈ policy.joinOnly, ∃ r, resolveEntry E s = .ok r)
    {source : Option String} {t : SchemaTable} {column : String} :
    reportedEntry E policy source t column =
      (policy.joinOnly.find? (covers E source t column)).map (·.entry) := by
  have hok : ∃ R', resolveJoinOnly E policy.joinOnly source = .ok R' := exists_resolveFrom_ok.mpr h
  obtain ⟨R', hR'⟩ := hok
  unfold reportedEntry
  rw [hR']
  dsimp only
  rw [entry_resolveFrom hR']
  rfl

theorem reportedEntry_eq_none {policy : ColumnPolicy}
    (h : ¬ ∀ s ∈ policy.joinOnly, ∃ r, resolveEntry E s = .ok r) {source : Option String}
    {t : SchemaTable} {column : String} : reportedEntry E policy source t column = none := by
  unfold reportedEntry
  cases hR : resolveJoinOnly E policy.joinOnly source with
  | ok R => exact absurd (exists_resolveFrom_ok.mp ⟨R, hR⟩) h
  | error _ => rfl

end Reported

/-! ## When the order does not matter -/

section Order

variable {E : GuardEnv} {entries : List String}

/-- With one spelling for each restriction, every join-only entry is kept. -/
theorem OneSpelling.mem_joinOnly (h : OneSpelling E entries) {entries' : List String}
    (hmem : ∀ e, e ∈ entries' ↔ e ∈ entries) {p : ColumnPolicy}
    (hp : parseColumnPolicy E.schema.case E.repr entries' = .ok p) {s : ScopedColumn} :
    s ∈ p.joinOnly ↔ ∃ e ∈ entries, scopedOf E.schema.case E.repr e = some s := by
  constructor
  · intro hs
    obtain ⟨e, he, hscoped⟩ := joinOnly_subset hp hs
    exact ⟨e, (hmem e).mp he, hscoped⟩
  · rintro ⟨e, he, hscoped⟩
    rw [mem_joinOnly_iff hp]
    have hin : s ∈ entries'.filterMap (scopedOf E.schema.case E.repr) :=
      List.mem_filterMap.mpr ⟨e, (hmem e).mpr he, hscoped⟩
    have hfound : ((entries'.filterMap (scopedOf E.schema.case E.repr)).find?
        (·.key E.schema.case = s.key E.schema.case)).isSome = true :=
      List.find?_isSome.mpr ⟨s, hin, decide_eq_true rfl⟩
    obtain ⟨s', hs'⟩ := Option.isSome_iff_exists.mp hfound
    -- the first entry for the restriction has the same text, so it is the same column
    obtain ⟨e', he', hscoped'⟩ := List.mem_filterMap.mp (List.mem_of_find?_eq_some hs')
    have hkey : s'.key E.schema.case = s.key E.schema.case := by simpa using List.find?_some hs'
    have hsame : SameRestriction E.schema.case E.repr e' e :=
      ⟨s', s, scopedOf_eq_some.mp hscoped', scopedOf_eq_some.mp hscoped, hkey⟩
    rw [hs', scopedOf_congr hscoped' hscoped (h.same e' ((hmem e').mp he') e he hsame)]

theorem mem_denied_congr {entries' : List String} (hmem : ∀ e, e ∈ entries' ↔ e ∈ entries)
    {p p' : ColumnPolicy} (hp : parseColumnPolicy E.schema.case E.repr entries = .ok p)
    (hp' : parseColumnPolicy E.schema.case E.repr entries' = .ok p') (name : String) :
    name ∈ p.denied ↔ name ∈ p'.denied := by
  rw [(parseFrom_ok hp).1, (parseFrom_ok hp').1]
  simp only [hmem]

theorem OneSpelling.orderFree (h : OneSpelling E entries) : OrderFree E entries := by
  intro entries' hmem p p' hp hp'
  have hjoin : ∀ s, s ∈ p.joinOnly ↔ s ∈ p'.joinOnly := fun s =>
    (h.mem_joinOnly (fun _ => Iff.rfl) hp).trans (h.mem_joinOnly hmem hp').symm
  refine ⟨mem_denied_congr hmem hp hp', hjoin, fun source t column => ?_⟩
  by_cases hresolve : ∀ s ∈ p.joinOnly, ∃ r, resolveEntry E s = .ok r
  · have hresolve' : ∀ s ∈ p'.joinOnly, ∃ r, resolveEntry E s = .ok r := fun s hs =>
      hresolve s ((hjoin s).mpr hs)
    have hall : ∀ e ∈ entries, ∀ s, scopedOf E.schema.case E.repr e = some s →
        ∃ r, resolveEntry E s = .ok r := fun e he s hscoped =>
      hresolve s ((h.mem_joinOnly (fun _ => Iff.rfl) hp).mpr ⟨e, he, hscoped⟩)
    rw [reportedEntry_eq hresolve, reportedEntry_eq hresolve']
    cases hfound : p.joinOnly.find? (covers E source t column) with
    | none =>
      have hnone : p'.joinOnly.find? (covers E source t column) = none :=
        List.find?_eq_none.mpr fun s hs => List.find?_eq_none.mp hfound s ((hjoin s).mpr hs)
      rw [hnone]
    | some s =>
      have hs := List.mem_of_find?_eq_some hfound
      have hcovers := List.find?_some hfound
      obtain ⟨s', hs'⟩ := Option.isSome_iff_exists.mp
        (List.find?_isSome.mpr ⟨s, (hjoin s).mp hs, hcovers⟩)
      obtain ⟨e, he, hscoped⟩ := (h.mem_joinOnly (fun _ => Iff.rfl) hp).mp hs
      obtain ⟨e', he', hscoped'⟩ := (h.mem_joinOnly hmem hp').mp (List.mem_of_find?_eq_some hs')
      rw [hs', Option.map_some, Option.map_some,
        h.overlapping hall source t column e he e' he' s s' hscoped hscoped' hcovers
          (List.find?_some hs')]
  · have hresolve' : ¬ ∀ s ∈ p'.joinOnly, ∃ r, resolveEntry E s = .ok r := fun h' =>
      hresolve fun s hs => h' s ((hjoin s).mp hs)
    rw [reportedEntry_eq_none hresolve, reportedEntry_eq_none hresolve']

/-- The policy of the entries with one of them put first. -/
theorem exists_policy_cons (hgood : ∀ e ∈ entries, ¬ Malformed E.schema.case E.repr e) {e : String}
    (he : e ∈ entries) : ∃ p, parseColumnPolicy E.schema.case E.repr (e :: entries) = .ok p :=
  exists_parseFrom_ok.mpr fun e' he' => by
    rcases List.mem_cons.mp he' with rfl | he'
    exacts [hgood _ he, hgood _ he']

theorem mem_cons_self_iff {e : String} (he : e ∈ entries) (e' : String) : e' ∈ e :: entries ↔ e' ∈ entries := by
  rw [List.mem_cons]
  exact or_iff_right_of_imp fun h => h ▸ he

/-- An entry put first is kept, before all others. -/
theorem joinOnly_of_first {e : String} {s : ScopedColumn} {p : ColumnPolicy}
    (hp : parseColumnPolicy E.schema.case E.repr (e :: entries) = .ok p)
    (hscoped : scopedOf E.schema.case E.repr e = some s) : ∃ rest, p.joinOnly = s :: rest := by
  unfold parseColumnPolicy at hp
  rw [parseFrom, bind_ok_iff] at hp
  obtain ⟨mid, hadd, hrest⟩ := hp
  have hmid := add_joinOnly hadd
  rw [hscoped] at hmid
  obtain ⟨rest, hrest'⟩ := joinOnly_prefix hrest
  rw [hmid] at hrest'
  exact ⟨rest, hrest'.symm⟩

/-- **The order of the entries does not matter exactly when each restriction has one spelling.** -/
theorem orderFree_iff :
    OrderFree E entries ↔
      ((∀ e ∈ entries, ¬ Malformed E.schema.case E.repr e) → OneSpelling E entries) := by
  constructor
  · intro hfree hgood
    have hparse : ∃ p, parseColumnPolicy E.schema.case E.repr entries = .ok p :=
      exists_parseFrom_ok.mpr hgood
    obtain ⟨p, hp⟩ := hparse
    have hfirst : ∀ e ∈ entries, ∃ p', parseColumnPolicy E.schema.case E.repr (e :: entries) = .ok p' ∧
        SamePolicy E p p' := fun e he => by
      obtain ⟨p', hp'⟩ := exists_policy_cons hgood he
      exact ⟨p', hp', hfree _ (mem_cons_self_iff he) p p' hp hp'⟩
    have hkept : ∀ e ∈ entries, ∀ s, scopedOf E.schema.case E.repr e = some s → s ∈ p.joinOnly :=
      fun e he s hscoped => by
        obtain ⟨p', hp', hsame⟩ := hfirst e he
        obtain ⟨rest, hrest⟩ := joinOnly_of_first hp' hscoped
        exact (hsame.joinOnly s).mpr (hrest ▸ List.mem_cons_self)
    refine ⟨?_, ?_⟩
    · -- both entries are kept, and only one can be for one restriction
      rintro e he e' he' ⟨s, s', hread, hread', hkey⟩
      have hscoped := scopedOf_eq_some.mpr hread
      have hscoped' := scopedOf_eq_some.mpr hread'
      have hs := (mem_joinOnly_iff hp).mp (hkept e he s hscoped)
      have hs' := (mem_joinOnly_iff hp).mp (hkept e' he' s' hscoped')
      rw [hkey] at hs
      rw [← scopedOf_entry hscoped, ← scopedOf_entry hscoped', Option.some.inj (hs.symm.trans hs')]
    · intro hall source t column e he e' he' s s' hscoped hscoped' hcovers hcovers'
      have hreport : ∀ f ∈ entries, ∀ r, scopedOf E.schema.case E.repr f = some r →
          covers E source t column r = true → reportedEntry E p source t column = some r.entry := by
        intro f hf r hr hcov
        obtain ⟨p', hp', hsame⟩ := hfirst f hf
        have hresolve : ∀ x ∈ p'.joinOnly, ∃ y, resolveEntry E x = .ok y := fun x hx => by
          obtain ⟨g, hg, hgx⟩ := joinOnly_subset hp' hx
          exact hall g ((mem_cons_self_iff hf g).mp hg) x hgx
        obtain ⟨rest, hrest⟩ := joinOnly_of_first hp' hr
        rw [hsame.reported, reportedEntry_eq hresolve, hrest, List.find?_cons, hcov]
        rfl
      have hboth := (hreport e he s hscoped hcovers).symm.trans (hreport e' he' s' hscoped' hcovers')
      exact Option.some.inj hboth
  · intro hone entries' hmem p p' hp hp'
    exact (hone (exists_parseFrom_ok.mp ⟨p, hp⟩)).orderFree entries' hmem p p' hp hp'

end Order

/-! ## One restriction spelled twice -/

/-- A policy with the one join-only entry on the customer's number, as one spelling has it. -/
def customerNumber (table column entry : String) (h : entry ≠ "") : ColumnPolicy where
  joinOnly := [⟨none, some table, column, entry, h⟩]

/-- **Two spellings of one restriction**: which of them is kept and reported depends on the order. -/
theorem twoSpellings_not_orderFree :
    ¬ OrderFree salesEnv ["sales.Customer.ID", "sales.customer.id"] := by
  intro hfree
  have hfirst : parseColumnPolicy salesEnv.schema.case salesEnv.repr
      ["sales.Customer.ID", "sales.customer.id"] =
        .ok (customerNumber "sales.Customer" "ID" "sales.Customer.ID" (by decide)) := by
    decide +kernel
  have hsecond : parseColumnPolicy salesEnv.schema.case salesEnv.repr
      ["sales.customer.id", "sales.Customer.ID"] =
        .ok (customerNumber "sales.customer" "id" "sales.customer.id" (by decide)) := by
    decide +kernel
  have hsame := hfree ["sales.customer.id", "sales.Customer.ID"]
    (fun e => by rw [List.mem_pair, List.mem_pair, or_comm]) _ _ hfirst hsecond
  have hkept := (hsame.joinOnly _).mp List.mem_cons_self
  rw [customerNumber, List.mem_singleton] at hkept
  exact absurd (congrArg ScopedColumn.entry hkept) (by decide)

end LocalSqlAgent
