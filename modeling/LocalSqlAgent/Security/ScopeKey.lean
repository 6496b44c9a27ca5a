import LocalSqlAgent.Appdb.KeyStore
import LocalSqlAgent.Lib.PyJson

/-! # The scope key of the query cache

`security.auth.scope_key`: the text of a principal's denied columns and of the memory entries a query used,
hashed. The denied columns are a JSON array and always read back; the memory entries are joined on `|` as
`key=value`, and `scopeKey_separates_iff` says for which of them the key still tells. -/

namespace LocalSqlAgent

/-! ## Session memory -/

/-- `MemoryKeyConfig`, the checks on a value. -/
structure MemoryKeyConfig where
  /-- `options`; empty for free text. -/
  options : List String
  /-- `max_length`. -/
  maxLength : ℕ

/-- How `validate_memory_value` fails. -/
inductive MemoryValidationError
  /-- `Unknown memory key`. -/
  | unknownKey (key : String)
  /-- `Memory values may not contain newlines or control characters.` -/
  | disallowedChars
  /-- `Value for key … exceeds max_length`. -/
  | tooLong (key : String) (maxLength : ℕ)
  /-- `Value … is not one of the declared options.` -/
  | notAnOption (key value : String)
  deriving DecidableEq

/-- `has_disallowed_chars`: a newline or a control character but the tab. -/
def hasDisallowedChars (value : String) : Bool :=
  value.toList.any fun c => c.toNat ≤ 8 || (10 ≤ c.toNat && c.toNat ≤ 31) || c.toNat = 127

/-- `validate_memory_value`, under the declared keys. -/
def validateMemoryValue (keys : List (String × MemoryKeyConfig)) (key value : String) :
    Except MemoryValidationError Unit :=
  match keys.lookup key with
  | none => .error (.unknownKey key)
  | some cfg =>
    if hasDisallowedChars value then .error .disallowedChars
    else if value.length > cfg.maxLength then .error (.tooLong key cfg.maxLength)
    else if ¬ cfg.options.isEmpty ∧ value ∉ cfg.options then .error (.notAnOption key value)
    else .ok ()

/-- `memory_used`, empty for `None`. -/
structure MemoryUsed where
  /-- The items. -/
  entries : List (String × String)
  /-- It is a mapping. -/
  nodup : (entries.map Prod.fst).Nodup

/-! ## The key -/

/-- The text of the denied columns. -/
def deniedText (deniedColumns : List String) : List Char :=
  if deniedColumns.isEmpty then "all".toList
  else jsonArray (deniedColumns.mergeSort fun a b => decide (a ≤ b))

/-- `key=value`. -/
def memoryField (entry : String × String) : List Char := entry.1.toList ++ '=' :: entry.2.toList

/-- `sorted(memory_used.items())`; the keys are distinct. -/
def MemoryUsed.items (memoryUsed : MemoryUsed) : List (String × String) :=
  memoryUsed.entries.mergeSort fun a b => decide (a.1 ≤ b.1)

/-- The text of the memory entries, behind its mark. -/
def MemoryUsed.text (memoryUsed : MemoryUsed) : List Char :=
  if memoryUsed.entries.isEmpty then []
  else "#mem:".toList ++ joined '|' (memoryUsed.items.map memoryField)

/-- The text `scope_key` hashes. -/
def scopeText (principal : Principal) (memoryUsed : MemoryUsed) : String :=
  String.ofList (deniedText principal.deniedColumns ++ memoryUsed.text)

/-- `scope_key`, given the truncated digest. -/
def scopeKey (digest : String → String) (principal : Principal) (memoryUsed : MemoryUsed) : String :=
  digest (scopeText principal memoryUsed)

/-- **The same visibility**: equal sets of denied entries and equal memory mappings. -/
def SameScope (principal principal' : Principal) (memoryUsed memoryUsed' : MemoryUsed) : Prop :=
  principal.deniedColumns.toFinset = principal'.deniedColumns.toFinset ∧
    memoryUsed.entries.Perm memoryUsed'.entries

/-- At most one entry, with no equals sign in its key or value. -/
def MemoryUsed.Readable (memoryUsed : MemoryUsed) : Prop :=
  memoryUsed.entries.length ≤ 1 ∧ ∀ p ∈ memoryUsed.entries, '=' ∉ p.1.toList ∧ '=' ∉ p.2.toList

variable {principal principal' : Principal} {memoryUsed memoryUsed' : MemoryUsed}

/-! ## The denied columns read back -/

/-- The text of the denied columns tells them in order, whatever follows. -/
theorem deniedText_append_inj {xs ys : List String} {s t : List Char}
    (heq : deniedText xs ++ s = deniedText ys ++ t) : xs.toFinset = ys.toFinset ∧ s = t := by
  unfold deniedText at heq
  cases xs with
  | nil =>
    cases ys with
    | nil => exact ⟨rfl, List.append_cancel_left heq⟩
    | cons y ys => exact absurd (List.cons.inj heq).1 (by decide)
  | cons x xs =>
    cases ys with
    | nil => exact absurd (List.cons.inj heq).1 (by decide)
    | cons y ys =>
      obtain ⟨hsorted, hst⟩ := jsonArray_prefixFree _ _ s t heq
      have hperm : (x :: xs).Perm (y :: ys) :=
        (List.mergeSort_perm _ _).symm.trans (hsorted.symm ▸ List.mergeSort_perm (y :: ys) _)
      exact ⟨List.toFinset_eq_of_perm _ _ hperm, hst⟩

/-- Equal texts: the denied columns agree, and so do the texts of the memory. -/
theorem scopeText_eq (heq : scopeText principal memoryUsed = scopeText principal' memoryUsed') :
    principal.deniedColumns.toFinset = principal'.deniedColumns.toFinset ∧ memoryUsed.text = memoryUsed'.text :=
  deniedText_append_inj (String.ofList_injective heq)

/-! ## When the memory reads back -/

theorem MemoryUsed.items_perm (memoryUsed : MemoryUsed) : memoryUsed.items.Perm memoryUsed.entries :=
  List.mergeSort_perm _ _

theorem MemoryUsed.length_items (memoryUsed : MemoryUsed) : memoryUsed.items.length = memoryUsed.entries.length :=
  memoryUsed.items_perm.length_eq

theorem MemoryUsed.text_of_ne {memoryUsed : MemoryUsed} (hne : memoryUsed.entries ≠ []) :
    memoryUsed.text = "#mem:".toList ++ joined '|' (memoryUsed.items.map memoryField) := by
  unfold MemoryUsed.text
  rw [if_neg]
  rwa [List.isEmpty_iff]

theorem MemoryUsed.text_eq_nil {memoryUsed : MemoryUsed} : memoryUsed.text = [] ↔ memoryUsed.entries = [] := by
  constructor
  · intro htext
    by_contra hne
    rw [MemoryUsed.text_of_ne hne] at htext
    cases htext
  · intro hnil
    unfold MemoryUsed.text
    rw [hnil]
    rfl

theorem equals_mem_memoryField (p : String × String) : '=' ∈ memoryField p :=
  List.mem_append_right _ List.mem_cons_self

/-- One field without other equals signs is read back from its text. -/
theorem memoryField_inj {p q : String × String} (hkey : '=' ∉ p.1.toList) (hvalue : '=' ∉ p.2.toList)
    (heq : memoryField p = memoryField q) : p = q := by
  obtain ⟨hfst, -, hsnd⟩ := (List.append_cons_inj_of_notMem hkey hvalue).mp heq
  exact Prod.ext (String.toList_injective hfst) (String.toList_injective hsnd)

/-- One entry without other equals signs is the only mapping of its text: every entry brings an equals
sign of its own. -/
theorem entries_of_readable (hreadable : memoryUsed.Readable) (htext : memoryUsed.text = memoryUsed'.text) :
    memoryUsed'.entries = memoryUsed.entries := by
  obtain ⟨hlength, hclean⟩ := hreadable
  by_cases hnil : memoryUsed.entries = []
  · rw [MemoryUsed.text_eq_nil.mpr hnil] at htext
    rw [hnil]
    exact MemoryUsed.text_eq_nil.mp htext.symm
  · obtain ⟨p, hp⟩ : ∃ p, memoryUsed.entries = [p] := by
      refine List.length_eq_one_iff.mp ?_
      have := List.length_pos_of_ne_nil hnil
      omega
    have hne' : memoryUsed'.entries ≠ [] := by
      rintro hnil'
      rw [MemoryUsed.text_eq_nil.mpr hnil'] at htext
      exact hnil (MemoryUsed.text_eq_nil.mp htext)
    obtain ⟨hkey, hvalue⟩ := hclean p (by rw [hp]; exact List.mem_cons_self)
    have hitems : memoryUsed.items = [p] := List.perm_singleton.mp (hp ▸ memoryUsed.items_perm)
    rw [MemoryUsed.text_of_ne hnil, MemoryUsed.text_of_ne hne', hitems] at htext
    have hjoined : memoryField p = joined '|' (memoryUsed'.items.map memoryField) :=
      List.append_cancel_left htext
    -- the text has one equals sign, so the other mapping has one entry
    have hcount : (memoryField p).count '=' = 1 := by
      unfold memoryField
      rw [List.count_append, List.count_cons_self, List.count_eq_zero_of_not_mem hkey,
        List.count_eq_zero_of_not_mem hvalue]
    have hlength' : memoryUsed'.items.length ≤ 1 := by
      have hparts : ∀ f ∈ memoryUsed'.items.map memoryField, '=' ∈ f := by
        intro f hf
        obtain ⟨q, -, rfl⟩ := List.mem_map.mp hf
        exact equals_mem_memoryField q
      have hle : (memoryUsed'.items.map memoryField).length
          ≤ (joined '|' (memoryUsed'.items.map memoryField)).count '=' := length_le_count_joined hparts
      rwa [← hjoined, hcount, List.length_map] at hle
    obtain ⟨q, hq⟩ : ∃ q, memoryUsed'.entries = [q] := by
      refine List.length_eq_one_iff.mp ?_
      rw [memoryUsed'.length_items] at hlength'
      have := List.length_pos_of_ne_nil hne'
      omega
    have hitems' : memoryUsed'.items = [q] := List.perm_singleton.mp (hq ▸ memoryUsed'.items_perm)
    rw [hitems'] at hjoined
    rw [hp, hq, memoryField_inj hkey hvalue hjoined]

/-! ## When it does not -/

/-- A mapping of one entry. -/
def MemoryUsed.single (key value : List Char) : MemoryUsed := ⟨[(String.ofList key, String.ofList value)], by simp⟩

theorem MemoryUsed.text_single (key value : List Char) :
    (MemoryUsed.single key value).text = "#mem:".toList ++ (key ++ '=' :: value) := by
  rw [MemoryUsed.text_of_ne (List.cons_ne_nil _ _)]
  have hitems : (MemoryUsed.single key value).items = [(String.ofList key, String.ofList value)] :=
    List.perm_singleton.mp (MemoryUsed.single key value).items_perm
  rw [hitems]
  show "#mem:".toList ++ ((String.ofList key).toList ++ '=' :: (String.ofList value).toList) = _
  simp only [String.toList_ofList]

/-- A mapping that is not readable shares its text with another one. -/
theorem exists_other_of_not_readable (hnot : ¬ memoryUsed.Readable) :
    ∃ other : MemoryUsed, other.text = memoryUsed.text ∧ ¬ other.entries.Perm memoryUsed.entries := by
  have hne : memoryUsed.entries ≠ [] := by
    intro hnil
    refine hnot ⟨by rw [hnil]; exact Nat.zero_le _, fun p hp => ?_⟩
    rw [hnil] at hp
    cases hp
  have hitemsNe : memoryUsed.items ≠ [] := by
    intro hnil
    have := memoryUsed.length_items
    rw [hnil] at this
    exact hne (List.eq_nil_of_length_eq_zero this.symm)
  obtain ⟨p, rest, hitems⟩ := List.exists_cons_of_ne_nil hitemsNe
  have htext := MemoryUsed.text_of_ne hne
  rw [hitems] at htext
  cases hrest : rest with
  | cons q more =>
    -- the second entry on moves into the first one's value
    refine ⟨.single p.1.toList (p.2.toList ++ '|' :: joined '|' ((q :: more).map memoryField)), ?_, ?_⟩
    · have hfirst : memoryField p = p.1.toList ++ '=' :: p.2.toList := rfl
      rw [MemoryUsed.text_single, htext, hrest, List.map_cons, List.map_cons, List.map_cons, joined_cons_cons,
        hfirst, List.append_assoc, List.cons_append]
    · intro hperm
      have hlength := hperm.length_eq
      rw [← memoryUsed.length_items, hitems, hrest] at hlength
      cases hlength
  | nil =>
    subst hrest
    have hentries : memoryUsed.entries = [p] :=
      List.perm_singleton.mp (hitems ▸ memoryUsed.items_perm.symm)
    have hequals : '=' ∈ p.1.toList ∨ '=' ∈ p.2.toList := by
      by_contra hclean
      push Not at hclean
      refine hnot ⟨by rw [hentries]; exact le_rfl, fun p' hp' => ?_⟩
      rw [hentries, List.mem_singleton] at hp'
      exact hp' ▸ hclean
    -- the text can be cut at another equals sign
    have hcut : ∀ key value, memoryField p = key ++ '=' :: value → key ≠ p.1.toList →
        ∃ other : MemoryUsed, other.text = memoryUsed.text ∧ ¬ other.entries.Perm memoryUsed.entries := by
      intro key value hfield hkey
      refine ⟨.single key value, ?_, fun hperm => ?_⟩
      · rw [MemoryUsed.text_single, htext, ← hfield]
        rfl
      · rw [hentries] at hperm
        have := List.singleton_perm_singleton.mp hperm
        exact hkey (by rw [← this, String.toList_ofList])
    unfold memoryField at hcut
    obtain hmem | hmem := hequals
    · obtain ⟨before, after, hsplit⟩ := List.append_of_mem hmem
      refine hcut before (after ++ '=' :: p.2.toList) (by rw [hsplit]; simp) fun heq => ?_
      have hlength := congrArg List.length (heq.trans hsplit)
      rw [List.length_append, List.length_cons] at hlength
      omega
    · obtain ⟨before, after, hsplit⟩ := List.append_of_mem hmem
      refine hcut (p.1.toList ++ '=' :: before) after (by rw [hsplit]; simp) fun heq => ?_
      have hlength := congrArg List.length heq
      rw [List.length_append, List.length_cons] at hlength
      omega

/-! ## Which keys separate -/

/-- **Which requests share their key with no other visibility**: those whose memory is readable, among any
texts the digest tells apart. -/
theorem scopeKey_separates_iff (digest : String → String) (texts : Set String) (hdigest : Set.InjOn digest texts)
    (principal : Principal) (memoryUsed : MemoryUsed) (htext : scopeText principal memoryUsed ∈ texts) :
    (∀ principal' memoryUsed', scopeText principal' memoryUsed' ∈ texts →
        scopeKey digest principal memoryUsed = scopeKey digest principal' memoryUsed' →
        SameScope principal principal' memoryUsed memoryUsed') ↔ memoryUsed.Readable := by
  constructor
  · intro hseparates
    by_contra hnot
    obtain ⟨other, hother, hne⟩ := exists_other_of_not_readable hnot
    have hsame : scopeText principal other = scopeText principal memoryUsed := by
      unfold scopeText
      rw [hother]
    obtain ⟨-, hperm⟩ := hseparates principal other (hsame ▸ htext) (congrArg digest hsame.symm)
    exact hne hperm.symm
  · intro hreadable principal' memoryUsed' htext' hkey
    obtain ⟨hdenied, hmemory⟩ := scopeText_eq (hdigest htext htext' hkey)
    exact ⟨hdenied, (entries_of_readable hreadable hmemory) ▸ .refl _⟩

/-- A request without denied columns that used one memory entry. -/
theorem scopeKey_separates_one :
    let digest := fun text => if text = "all#mem:scope=x" then "97e6d3ba09b4603b" else ""
    let principal : Principal := ⟨"a", "A", [], ∅⟩
    let memoryUsed : MemoryUsed := ⟨[("scope", "x")], by decide⟩
    (∀ principal' memoryUsed', scopeText principal' memoryUsed' ∈ ({"all#mem:scope=x"} : Set String) →
        scopeKey digest principal memoryUsed = scopeKey digest principal' memoryUsed' →
        SameScope principal principal' memoryUsed memoryUsed') ↔ memoryUsed.Readable :=
  scopeKey_separates_iff _ {"all#mem:scope=x"} (Set.injOn_singleton _ _) _ _ (by decide +kernel)

/-- Two free-text memory keys. -/
def twoKeys : List (String × MemoryKeyConfig) := [("region", ⟨[], 120⟩), ("scope", ⟨[], 120⟩)]

/-- **A crafted value**: the second entry inside the first one's value. Every value is valid, and whatever
the digest, the two requests share a key. -/
theorem craftedValue_shares_key :
    let principal : Principal := ⟨"a", "A", [], ∅⟩
    let crafted : MemoryUsed := ⟨[("region", "north|scope=retail")], by decide⟩
    let honest : MemoryUsed := ⟨[("region", "north"), ("scope", "retail")], by decide⟩
    (∀ p ∈ crafted.entries ++ honest.entries, validateMemoryValue twoKeys p.1 p.2 = .ok ()) ∧
    (∀ digest, scopeKey digest principal crafted = scopeKey digest principal honest) ∧
    ¬ SameScope principal principal crafted honest := by
  intro principal crafted honest
  have hitems : honest.items = [("region", "north"), ("scope", "retail")] :=
    List.mergeSort_of_pairwise (by decide)
  have hcrafted : crafted.items = [("region", "north|scope=retail")] := List.mergeSort_of_pairwise (by decide)
  have htext : crafted.text = honest.text := by
    unfold MemoryUsed.text
    rw [hitems, hcrafted]
    decide
  refine ⟨by decide, fun digest => congrArg digest ?_, fun hsame => ?_⟩
  · unfold scopeText
    rw [htext]
  · exact absurd hsame.2.length_eq (by decide)

end LocalSqlAgent
