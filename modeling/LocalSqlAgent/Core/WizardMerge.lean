import LocalSqlAgent.Lib.OrderedDict

/-! # Merging a wizard run into the earlier file

`core.wizard_drafts`: the old file's entries, re-keyed and collapsed where two land on one key, and the
new run's entries put over them. Keys compare without case, by `str.casefold`, which is given.

* **`collapseSameKey`**: one entry of the old entries that the renaming puts on one key.
* **`mergeMapping`**: the old entries under their new keys, the new values in place, the rest appended.
* **`FoldedAs`**: a mapping read as a dictionary of folded keys; the merge is plain assignment there.
* **`LosesNothing`**: what a merge is for.
* **`merge_losesNothing_iff`**: the merge does it when no two new keys are one up to case, and only then. -/

namespace LocalSqlAgent

universe u

variable {ν : Type u}

section
variable (fold : String → String) (rename : OrderedDict String String)

/-- `{_fold(k): v for k, v in rename.items()}`. -/
def loweredRename : OrderedDict String String :=
  OrderedDict.ofPairs (rename.entries.map fun e => (fold e.1, e.2))

/-- `lowered.get(_fold(key), key)`. -/
def renamed (key : String) : String := ((loweredRename fold rename).lookup (fold key)).getD key

/-- `final`: the folded key an old entry ends under. -/
def finalKey (key : String) : String := fold (renamed fold rename key)

/-! ## Collapsing -/

/-- One round of `groups.setdefault(final(key), []).append(key)`. -/
def addToGroup (groups : OrderedDict String (List String)) (key : String) : OrderedDict String (List String) :=
  groups.assign (finalKey fold rename key) ((groups.lookup (finalKey fold rename key)).getD [] ++ [key])

/-- The entry of a group that keeps its key. -/
def keeperOf (group : List String) (key : String) : String :=
  (group.find? fun k => decide (fold k = finalKey fold rename key)).getD key

/-- The keeper's value with those of the others folded in, in file order. -/
def combinedValue (combine : ν → ν → ν) (existing : OrderedDict String ν) (group : List String)
    (keeper : String) (value : ν) : ν :=
  ((group.filter fun k => decide (k ≠ keeper)).filterMap existing.lookup).foldl combine
    ((existing.lookup keeper).getD value)

/-- One round of the second loop of `collapse_same_key`. -/
def collapseOne (combine : ν → ν → ν) (existing : OrderedDict String ν)
    (groups : OrderedDict String (List String)) (s : OrderedDict String ν × List (String × String))
    (e : DictEntry String ν) : OrderedDict String ν × List (String × String) :=
  let group := (groups.lookup (finalKey fold rename e.1)).getD []
  if group.length = 1 then (s.1.assign e.1 e.2, s.2)
  else if group.head? = some e.1 then
    let keeper := keeperOf fold rename group e.1
    (s.1.assign keeper (combinedValue combine existing group keeper e.2),
      s.2 ++ (group.filter fun k => decide (k ≠ keeper)).map fun other => (other, keeper))
  else s

/-- **`collapse_same_key`.** -/
def collapseSameKey (existing : OrderedDict String ν) (combine : ν → ν → ν) :
    OrderedDict String ν × List (String × String) :=
  existing.entries.foldl
    (collapseOne fold rename combine existing (existing.keys.foldl (addToGroup fold rename) ∅)) (∅, [])

/-! ## Merging -/

/-- `MergeStats`. -/
structure MergeStats where
  kept : ℕ := 0
  added : ℕ := 0
  replaced : ℕ := 0
  rekeyed : List (String × String) := []
  held : List String := []

/-- The variables of the second loop of `merge_mapping`; the set of untouched keys is a list. -/
structure MergeState (ν : Type u) where
  merged : OrderedDict String ν
  index : OrderedDict String String
  untouched : List String
  added : ℕ := 0
  replaced : ℕ := 0

/-- What the first loop leaves: the old entries under their new keys, and each one's spelling. -/
def mergeStart (existing : OrderedDict String ν) : MergeState ν :=
  let merged := OrderedDict.ofPairs (existing.entries.map fun e => (renamed fold rename e.1, e.2))
  { merged := merged
    index := OrderedDict.ofPairs (existing.keys.map fun key =>
      (finalKey fold rename key, renamed fold rename key))
    untouched := merged.keys }

/-- The entries with one key respelled and its value replaced, in its place. -/
def respell (merged : OrderedDict String ν) (present key : String) (value : ν) : OrderedDict String ν :=
  OrderedDict.ofPairs (merged.entries.map fun e => if e.1 = present then (key, value) else (e.1, e.2))

/-- **One new entry.** -/
def mergeOne (s : MergeState ν) (e : DictEntry String ν) : MergeState ν :=
  match s.index.lookup (fold e.1) with
  | none =>
    { s with
      merged := s.merged.assign e.1 e.2, index := s.index.assign (fold e.1) e.1, added := s.added + 1 }
  | some present =>
    { s with
      merged := if present = e.1 then s.merged.assign e.1 e.2 else respell s.merged present e.1 e.2
      index := if present = e.1 then s.index else s.index.assign (fold e.1) e.1
      untouched := s.untouched.erase present
      replaced := s.replaced + 1 }

/-- **`merge_mapping`.** -/
def mergeMapping (existing new : OrderedDict String ν) : OrderedDict String ν × MergeStats :=
  let s := new.entries.foldl (mergeOne fold) (mergeStart fold rename existing)
  (s.merged,
    { kept := s.untouched.length
      added := s.added
      replaced := s.replaced
      rekeyed := (existing.keys.filter fun key => decide (renamed fold rename key ≠ key)).map fun key =>
        (key, renamed fold rename key) })

/-! ## What a merge is for -/

/-- The old keys that end under a folded key, in file order. -/
def groupOf (existing : OrderedDict String ν) (f : String) : List String :=
  existing.keys.filter fun key => decide (finalKey fold rename key = f)

/-- **A value is the combination of all old entries of a key**, each once: one of them with the others
folded in, in file order. -/
def IsCombination (combine : ν → ν → ν) (existing : OrderedDict String ν) (f : String) (value : ν) : Prop :=
  ∃ keeper ∈ groupOf fold rename existing f, ∃ first, existing.lookup keeper = some first ∧
    value = (((groupOf fold rename existing f).filter fun k => decide (k ≠ keeper)).filterMap
      existing.lookup).foldl combine first

/-- **Nothing is lost**: what the merged mapping and its counts have to be. -/
structure LosesNothing (combine : ν → ν → ν) (existing new : OrderedDict String ν)
    (merged : OrderedDict String ν) (stats : MergeStats) : Prop where
  /-- One entry for each key up to case. -/
  one_each : (merged.keys.map fold).Nodup
  /-- The keys are those of the old entries, renamed, and of the new ones. -/
  keys : ∀ f, f ∈ merged.keys.map fold ↔
    f ∈ existing.keys.map (finalKey fold rename) ∨ f ∈ new.keys.map fold
  /-- A new entry has its value. -/
  new_value : ∀ e ∈ new.entries, ∃ key, fold key = fold e.1 ∧ merged.lookup key = some e.2
  /-- Without a new entry the value combines all old ones. -/
  old_value : ∀ f ∈ existing.keys.map (finalKey fold rename), f ∉ new.keys.map fold →
    ∃ key value, fold key = f ∧ merged.lookup key = some value ∧
      IsCombination fold rename combine existing f value
  /-- The old entries come first, in their order. -/
  old_first : (existing.keys.map (finalKey fold rename)).eraseDups <+: merged.keys.map fold
  /-- Every old entry left is kept or replaced. -/
  count : stats.kept + stats.replaced = (collapseSameKey fold rename existing combine).1.size

end

section
variable {fold : String → String} {rename : OrderedDict String String} {combine : ν → ν → ν}
  {existing new : OrderedDict String ν}

/-! ## The collapsed entries -/

/-- The groups hold the keys that end alike, in file order. -/
theorem lookup_foldl_addToGroup (keys : List String) (groups : OrderedDict String (List String)) (f : String) :
    ((keys.foldl (addToGroup fold rename) groups).lookup f).getD [] =
      (groups.lookup f).getD [] ++ keys.filter fun key => decide (finalKey fold rename key = f) := by
  induction keys generalizing groups with
  | nil => simp
  | cons key keys ih =>
    rw [List.foldl_cons, ih, addToGroup]
    by_cases same : finalKey fold rename key = f
    · subst same
      rw [OrderedDict.lookup_assign_self, Option.getD_some, List.append_assoc,
        List.filter_cons_of_pos (by simp), List.singleton_append]
    · rw [OrderedDict.lookup_assign_of_ne _ _ (Ne.symm same), List.filter_cons_of_neg (by simpa using same)]

theorem group_eq_groupOf (f : String) :
    ((existing.keys.foldl (addToGroup fold rename) ∅).lookup f).getD [] = groupOf fold rename existing f := by
  rw [lookup_foldl_addToGroup, AList.lookup_empty]
  rfl

theorem mem_groupOf {f key : String} :
    key ∈ groupOf fold rename existing f ↔ key ∈ existing.keys ∧ finalKey fold rename key = f := by
  rw [groupOf, List.mem_filter, decide_eq_true_eq]

theorem exists_lookup_of_mem_keys {key : String} (mem : key ∈ existing.keys) :
    ∃ value, existing.lookup key = some value :=
  Option.isSome_iff_exists.mp (AList.lookup_isSome.mpr (AList.mem_keys.mpr mem))

theorem keeperOf_mem (fold : String → String) (rename : OrderedDict String String) {group : List String} {key : String} (mem : key ∈ group) :
    keeperOf fold rename group key ∈ group := by
  rw [keeperOf]
  cases found : group.find? fun k => decide (fold k = finalKey fold rename key) with
  | none => exact mem
  | some k => exact List.mem_of_find?_eq_some found

/-- A new key is appended. -/
theorem entries_assign_of_notMem {d : OrderedDict String ν} {key : String} (value : ν) (h : key ∉ d.keys) :
    (d.assign key value).entries = d.entries ++ [⟨key, value⟩] := OrderedDict.assignEntry_of_notMem value h

/-- **The invariant of the collapsing loop**, after some of the entries. -/
structure CollapseInvariant (fold : String → String) (rename : OrderedDict String String)
    (combine : ν → ν → ν) (existing : OrderedDict String ν) (seen : List String) (result : OrderedDict String ν) :
    Prop where
  keys : result.keys.map (finalKey fold rename) = (seen.map (finalKey fold rename)).eraseDups
  values : ∀ e ∈ result.entries, IsCombination fold rename combine existing (finalKey fold rename e.1) e.2

/-- Putting in the combination of a group that is not there yet. -/
theorem CollapseInvariant.assign {seen : List String} {result : OrderedDict String ν} {key keeper : String}
    {value : ν} (inv : CollapseInvariant fold rename combine existing seen result)
    (first : finalKey fold rename key ∉ seen.map (finalKey fold rename))
    (same : finalKey fold rename keeper = finalKey fold rename key)
    (combination : IsCombination fold rename combine existing (finalKey fold rename key) value) :
    CollapseInvariant fold rename combine existing (seen ++ [key]) (result.assign keeper value) := by
  have new : keeper ∉ result.keys := fun mem => first (by
    have := List.mem_map_of_mem (f := finalKey fold rename) mem
    rwa [inv.keys, List.mem_eraseDups, same] at this)
  constructor
  · rw [OrderedDict.keys_assign, if_neg new, List.map_append, inv.keys, List.map_append, List.eraseDups_append]
    have fresh : [finalKey fold rename key].removeAll (seen.map (finalKey fold rename)) =
        [finalKey fold rename key] := by
      simpa [List.removeAll] using first
    rw [List.map_singleton, List.map_singleton, fresh, same]
    rfl
  · intro e mem
    rw [entries_assign_of_notMem value new] at mem
    obtain mem | mem := List.mem_append.mp mem
    · exact inv.values e mem
    · obtain rfl := List.mem_singleton.mp mem
      exact same ▸ combination

/-- **One round of the collapsing loop.** The group is put in with its first key; at the others nothing
happens. -/
theorem CollapseInvariant.step {seen rest : List String} {e : DictEntry String ν}
    {s : OrderedDict String ν × List (String × String)}
    (inv : CollapseInvariant fold rename combine existing seen s.1) (mem : e ∈ existing.entries)
    (split : existing.keys = seen ++ e.1 :: rest) :
    CollapseInvariant fold rename combine existing (seen ++ [e.1])
      (collapseOne fold rename combine existing (existing.keys.foldl (addToGroup fold rename) ∅) s e).1 := by
  have nodup : existing.keys.Nodup := existing.nodupKeys
  have in_group : e.1 ∈ groupOf fold rename existing (finalKey fold rename e.1) :=
    mem_groupOf.mpr ⟨by simp [split], rfl⟩
  have group : groupOf fold rename existing (finalKey fold rename e.1) =
      (seen.filter fun key => decide (finalKey fold rename key = finalKey fold rename e.1)) ++
        e.1 :: rest.filter fun key => decide (finalKey fold rename key = finalKey fold rename e.1) := by
    rw [groupOf, split, List.filter_append, List.filter_cons_of_pos (by simp)]
  by_cases first : finalKey fold rename e.1 ∈ seen.map (finalKey fold rename)
  · -- an earlier key of the group was its first
    obtain ⟨early, early_mem, early_eq⟩ := List.mem_map.mp first
    have early_in : early ∈ seen.filter fun key =>
        decide (finalKey fold rename key = finalKey fold rename e.1) :=
      List.mem_filter.mpr ⟨early_mem, by simpa using early_eq⟩
    obtain ⟨head, tail, front⟩ := List.exists_cons_of_ne_nil (List.ne_nil_of_mem early_in)
    have head_seen : head ∈ seen := List.mem_of_mem_filter (front ▸ List.mem_cons_self)
    have other : head ≠ e.1 := by
      rintro rfl
      rw [split] at nodup
      exact (List.nodup_append.mp nodup).2.2 _ head_seen _ List.mem_cons_self rfl
    have unchanged : collapseOne fold rename combine existing
        (existing.keys.foldl (addToGroup fold rename) ∅) s e = s := by
      rw [collapseOne, group_eq_groupOf, group, front]
      simp [other]
    rw [unchanged]
    refine ⟨?_, inv.values⟩
    rw [inv.keys, List.map_append, List.eraseDups_append]
    have nothing : [finalKey fold rename e.1].removeAll (seen.map (finalKey fold rename)) = [] := by
      simpa [List.removeAll] using first
    rw [List.map_singleton, nothing]
    simp
  · have front : (seen.filter fun key => decide (finalKey fold rename key = finalKey fold rename e.1)) = [] :=
      List.filter_eq_nil_iff.mpr fun key mem => by
        simpa using fun eq => first (List.mem_map.mpr ⟨key, mem, eq⟩)
    rw [front, List.nil_append] at group
    have value_of : existing.lookup e.1 = some e.2 := AList.mem_lookup_iff.mpr mem
    rw [collapseOne, group_eq_groupOf]
    by_cases alone : (groupOf fold rename existing (finalKey fold rename e.1)).length = 1
    · rw [if_pos alone]
      refine inv.assign first rfl ⟨e.1, in_group, e.2, value_of, ?_⟩
      have single : groupOf fold rename existing (finalKey fold rename e.1) = [e.1] := by
        rw [group, List.length_cons, Nat.add_eq_right, List.length_eq_zero_iff] at alone
        rw [group, alone]
      rw [single]
      simp
    · rw [if_neg alone, if_pos (by rw [group]; rfl)]
      have keeper_mem := keeperOf_mem fold rename in_group
      obtain ⟨keeper_key, keeper_final⟩ := mem_groupOf.mp keeper_mem
      obtain ⟨first_value, found⟩ := exists_lookup_of_mem_keys keeper_key
      refine inv.assign first keeper_final ⟨_, keeper_mem, first_value, found, ?_⟩
      rw [combinedValue, found]
      rfl

variable (fold rename combine existing) in
/-- **The collapsed mapping**: one entry for each key up to renaming and case, in the order of the first
of each, with the combination of all of them. -/
theorem collapseSameKey_invariant :
    CollapseInvariant fold rename combine existing existing.keys
      (collapseSameKey fold rename existing combine).1 := by
  have run : ∀ (rest : List (DictEntry String ν)) (seen : List String)
      (s : OrderedDict String ν × List (String × String)),
      CollapseInvariant fold rename combine existing seen s.1 → (∀ e ∈ rest, e ∈ existing.entries) →
      existing.keys = seen ++ rest.map (·.1) →
      CollapseInvariant fold rename combine existing existing.keys (rest.foldl (collapseOne fold rename combine
        existing (existing.keys.foldl (addToGroup fold rename) ∅)) s).1 := by
    intro rest
    induction rest with
    | nil =>
      intro seen s inv _ split
      rw [List.map_nil, List.append_nil] at split
      exact split ▸ inv
    | cons e rest ih =>
      intro seen s inv inside split
      obtain ⟨mem, inside⟩ := List.forall_mem_cons.mp inside
      exact ih (seen ++ [e.1]) _ (inv.step mem split) inside (by rw [split]; simp)
  exact run existing.entries [] (∅, []) ⟨rfl, fun e mem => absurd mem List.not_mem_nil⟩ (fun e mem => mem) rfl

/-! ## The merge as assignment of folded keys -/

/-- An entry under its folded key. -/
def foldEntry (fold : String → String) (e : DictEntry String ν) : DictEntry String ν := ⟨fold e.1, e.2⟩

/-- **The invariant of the merging loop**: the mapping is `d` up to the spelling of its keys, and the index
knows each spelling. -/
structure FoldedAs (fold : String → String) (s : MergeState ν) (d : OrderedDict String ν) : Prop where
  entries : s.merged.entries.map (foldEntry fold) = d.entries
  index : ∀ f key, s.index.lookup f = some key ↔ key ∈ s.merged.keys ∧ fold key = f
  untouched : ∀ key ∈ s.untouched, key ∈ s.merged.keys
  distinct : s.untouched.Nodup

section
variable {s : MergeState ν} {d : OrderedDict String ν} {e : DictEntry String ν}

theorem FoldedAs.keys (h : FoldedAs fold s d) : s.merged.keys.map fold = d.keys := by
  have keys := congrArg (List.map Sigma.fst) h.entries
  rw [List.map_map] at keys
  rw [AList.keys, List.keys, List.map_map]
  exact keys

/-- Each folded key has one spelling. -/
theorem FoldedAs.eq_of_fold (h : FoldedAs fold s d) {key key' : String} (mem : key ∈ s.merged.keys)
    (mem' : key' ∈ s.merged.keys) (same : fold key = fold key') : key = key' := by
  have nodup : (s.merged.keys.map fold).Nodup := h.keys ▸ d.nodupKeys
  exact List.inj_on_of_nodup_map nodup mem mem' same

/-- What is under a folded key is under its spelling. -/
theorem FoldedAs.exists_of_lookup (h : FoldedAs fold s d) {f : String} {value : ν}
    (found : d.lookup f = some value) : ∃ key, fold key = f ∧ s.merged.lookup key = some value := by
  have mem := AList.mem_lookup_iff.mp found
  rw [← h.entries] at mem
  obtain ⟨e, inside, eq⟩ := List.mem_map.mp mem
  obtain ⟨rfl, rfl⟩ : fold e.1 = f ∧ e.2 = value := by
    rw [foldEntry] at eq
    cases eq
    exact ⟨rfl, rfl⟩
  exact ⟨e.1, rfl, AList.mem_lookup_iff.mpr inside⟩

/-- An entry with its key respelled and its value replaced. -/
def respelled (present : String) (e e' : DictEntry String ν) : DictEntry String ν :=
  if e'.1 = present then e else e'

/-- What the loop does to a key that is there: its entry is replaced where it stands. -/
theorem FoldedAs.entries_respell (h : FoldedAs fold s d) {present : String} (mem : present ∈ s.merged.keys)
    (same : fold present = fold e.1) :
    (if present = e.1 then s.merged.assign e.1 e.2 else respell s.merged present e.1 e.2).entries =
      s.merged.entries.map (respelled present e) := by
  split_ifs with spelled
  · subst spelled
    exact OrderedDict.assignEntry_of_mem e.2 mem s.merged.nodupKeys
  · rw [respell, OrderedDict.entries_ofPairs, List.map_map]
    · refine List.map_congr_left fun e' _ => ?_
      by_cases here : e'.1 = present <;> simp [respelled, here]
    · -- the folded keys stay what they are, so the keys stay distinct
      refine List.Nodup.of_map fold ?_
      have folds : ((s.merged.entries.map fun e' =>
          if e'.1 = present then (e.1, e.2) else (e'.1, e'.2)).map (·.1)).map fold = d.keys := by
        rw [← h.keys, AList.keys, List.keys, List.map_map, List.map_map, List.map_map]
        refine List.map_congr_left fun e' _ => ?_
        by_cases here : e'.1 = present <;> simp [here, same]
      rw [folds]
      exact d.nodupKeys

/-- In folded keys that is an assignment. -/
theorem FoldedAs.map_respelled (h : FoldedAs fold s d) {present : String} (mem : present ∈ s.merged.keys)
    (same : fold present = fold e.1) :
    (s.merged.entries.map (respelled present e)).map (foldEntry fold) = (d.assign (fold e.1) e.2).entries := by
  have there : fold e.1 ∈ d.keys := by
    rw [← h.keys, ← same]
    exact List.mem_map_of_mem mem
  have assigned : (d.assign (fold e.1) e.2).entries = _ :=
    OrderedDict.assignEntry_of_mem e.2 there d.nodupKeys
  rw [assigned, ← h.entries, List.map_map, List.map_map]
  refine List.map_congr_left fun e' inside => ?_
  have one : e'.1 = present ↔ fold e'.1 = fold e.1 :=
    ⟨fun eq => eq ▸ same, fun eq => h.eq_of_fold (List.mem_map_of_mem inside) mem (eq.trans same.symm)⟩
  by_cases here : e'.1 = present
  · simp [respelled, foldEntry, here, same]
  · simp [respelled, foldEntry, here, one.not.mp here]

/-- Whether a folded key is there and some new entry has had it. -/
def Touched (fold : String → String) (s : MergeState ν) (d : OrderedDict String ν) (f : String) : Prop :=
  f ∈ d.keys ∧ ∀ key ∈ s.untouched, fold key ≠ f

theorem mergeOne_of_none (none : s.index.lookup (fold e.1) = none) :
    mergeOne fold s e =
      { s with
        merged := s.merged.assign e.1 e.2, index := s.index.assign (fold e.1) e.1, added := s.added + 1 } := by
  rw [mergeOne, none]

theorem mergeOne_of_some {present : String} (some : s.index.lookup (fold e.1) = some present) :
    mergeOne fold s e =
      { s with
        merged := if present = e.1 then s.merged.assign e.1 e.2 else respell s.merged present e.1 e.2
        index := if present = e.1 then s.index else s.index.assign (fold e.1) e.1
        untouched := s.untouched.erase present
        replaced := s.replaced + 1 } := by
  rw [mergeOne, some]

/-- The index knows a folded key when the mapping has it. -/
theorem FoldedAs.lookup_eq_none_iff (h : FoldedAs fold s d) {f : String} :
    s.index.lookup f = none ↔ f ∉ d.keys := by
  rw [← h.keys, List.mem_map]
  constructor
  · rintro none ⟨key, mem, rfl⟩
    have := (h.index (fold key) key).mpr ⟨mem, rfl⟩
    rw [none] at this
    cases this
  · intro absent
    cases found : s.index.lookup f with
    | none => rfl
    | some key =>
      obtain ⟨mem, same⟩ := (h.index f key).mp found
      exact absurd ⟨key, mem, same⟩ absent

/-- **A new entry for a new key** is appended. -/
theorem FoldedAs.mergeOne_new (h : FoldedAs fold s d) (absent : fold e.1 ∉ d.keys) :
    FoldedAs fold (mergeOne fold s e) (d.assign (fold e.1) e.2) ∧
      ∀ f, Touched fold (mergeOne fold s e) (d.assign (fold e.1) e.2) f ↔ f = fold e.1 ∨ Touched fold s d f := by
  have unspelled : ∀ key ∈ s.merged.keys, fold key ≠ fold e.1 := fun key mem same =>
    absent (by rw [← h.keys, ← same]; exact List.mem_map_of_mem mem)
  have new : e.1 ∉ s.merged.keys := fun mem => unspelled e.1 mem rfl
  have keys : (s.merged.assign e.1 e.2).keys = s.merged.keys ++ [e.1] := by
    rw [OrderedDict.keys_assign, if_neg new]
  rw [mergeOne_of_none (h.lookup_eq_none_iff.mpr absent)]
  refine ⟨⟨?_, fun f key => ?_, fun key mem => ?_, h.distinct⟩, fun f => ?_⟩
  · rw [entries_assign_of_notMem e.2 new, entries_assign_of_notMem e.2 absent, List.map_append, h.entries]
    rfl
  · show (s.index.assign (fold e.1) e.1).lookup f = some key ↔ key ∈ (s.merged.assign e.1 e.2).keys ∧ fold key = f
    rw [keys, List.mem_append, List.mem_singleton]
    by_cases here : f = fold e.1
    · rw [here, OrderedDict.lookup_assign_self, Option.some.injEq]
      constructor
      · rintro rfl
        exact ⟨.inr rfl, rfl⟩
      · rintro ⟨mem | rfl, same⟩
        · exact absurd same (unspelled key mem)
        · rfl
    · rw [OrderedDict.lookup_assign_of_ne _ _ here, h.index]
      constructor
      · exact fun ⟨mem, same⟩ => ⟨.inl mem, same⟩
      · rintro ⟨mem | rfl, same⟩
        · exact ⟨mem, same⟩
        · exact absurd same.symm here
  · show key ∈ (s.merged.assign e.1 e.2).keys
    rw [keys]
    exact List.mem_append_left _ (h.untouched key mem)
  · have dkeys : (d.assign (fold e.1) e.2).keys = d.keys ++ [fold e.1] := by
      rw [OrderedDict.keys_assign, if_neg absent]
    show f ∈ (d.assign (fold e.1) e.2).keys ∧ (∀ key ∈ s.untouched, fold key ≠ f) ↔ _
    rw [dkeys, List.mem_append, List.mem_singleton]
    constructor
    · rintro ⟨mem | here, free⟩
      · exact .inr ⟨mem, free⟩
      · exact .inl here
    · rintro (rfl | ⟨mem, free⟩)
      · exact ⟨.inr rfl, fun key mem => unspelled key (h.untouched key mem)⟩
      · exact ⟨.inl mem, free⟩

/-- **A new entry for a known key** replaces the entry of the key where it stands. -/
theorem FoldedAs.mergeOne_known (h : FoldedAs fold s d) {present : String}
    (found : s.index.lookup (fold e.1) = some present) :
    FoldedAs fold (mergeOne fold s e) (d.assign (fold e.1) e.2) ∧
      ∀ f, Touched fold (mergeOne fold s e) (d.assign (fold e.1) e.2) f ↔ f = fold e.1 ∨ Touched fold s d f := by
  obtain ⟨mem, same⟩ := (h.index _ _).mp found
  have entries := h.entries_respell mem same
  rw [mergeOne_of_some found]
  generalize (if present = e.1 then s.merged.assign e.1 e.2 else respell s.merged present e.1 e.2) = merged
    at entries ⊢
  have keys : ∀ key, key ∈ merged.keys ↔ key = e.1 ∨ (key ∈ s.merged.keys ∧ key ≠ present) := by
    intro key
    rw [AList.keys, List.keys, entries, List.map_map, List.mem_map, AList.keys, List.keys]
    constructor
    · rintro ⟨e', inside, rfl⟩
      by_cases here : e'.1 = present
      · exact .inl (by simp [respelled, here])
      · refine .inr ?_
        simp only [Function.comp_apply, respelled, if_neg here]
        exact ⟨List.mem_map_of_mem inside, here⟩
    · rintro (rfl | ⟨inside, other⟩)
      · obtain ⟨e', entry, rfl⟩ := List.mem_map.mp mem
        exact ⟨e', entry, by simp [respelled]⟩
      · obtain ⟨e', entry, rfl⟩ := List.mem_map.mp inside
        exact ⟨e', entry, by simp [respelled, other]⟩
  have one : ∀ key ∈ s.merged.keys, fold key = fold e.1 → key = present := fun key inside eq =>
    h.eq_of_fold inside mem (eq.trans same.symm)
  have there : fold e.1 ∈ d.keys := by
    rw [← h.keys, ← same]
    exact List.mem_map_of_mem mem
  refine ⟨⟨?_, fun f key => ?_, fun key inside => ?_, h.distinct.erase present⟩, fun f => ?_⟩
  · show merged.entries.map (foldEntry fold) = _
    rw [entries]
    exact h.map_respelled mem same
  · show (if present = e.1 then s.index else s.index.assign (fold e.1) e.1).lookup f = some key ↔
      key ∈ merged.keys ∧ fold key = f
    rw [keys]
    by_cases here : f = fold e.1
    · have spelled : (if present = e.1 then s.index else s.index.assign (fold e.1) e.1).lookup f =
          some e.1 := by
        rw [here]
        split_ifs with eq
        · exact eq ▸ found
        · exact OrderedDict.lookup_assign_self _ _ _
      rw [spelled, Option.some.injEq, here]
      constructor
      · rintro rfl
        exact ⟨.inl rfl, rfl⟩
      · rintro ⟨rfl | ⟨inside, other⟩, eq⟩
        · rfl
        · exact absurd (one key inside eq) other
    · have kept : (if present = e.1 then s.index else s.index.assign (fold e.1) e.1).lookup f =
          s.index.lookup f := by
        split_ifs
        · rfl
        · exact OrderedDict.lookup_assign_of_ne _ _ here
      rw [kept, h.index]
      constructor
      · rintro ⟨inside, rfl⟩
        exact ⟨.inr ⟨inside, fun eq => here (eq ▸ same)⟩, rfl⟩
      · rintro ⟨rfl | ⟨inside, -⟩, eq⟩
        · exact absurd eq.symm here
        · exact ⟨inside, eq⟩
  · obtain ⟨other, inside⟩ := h.distinct.mem_erase_iff.mp inside
    exact (keys key).mpr (.inr ⟨h.untouched key inside, other⟩)
  · have dkeys : (d.assign (fold e.1) e.2).keys = d.keys := by
      rw [OrderedDict.keys_assign, if_pos there]
    show f ∈ (d.assign (fold e.1) e.2).keys ∧ (∀ key ∈ s.untouched.erase present, fold key ≠ f) ↔ _
    rw [dkeys]
    constructor
    · rintro ⟨inside, free⟩
      refine or_iff_not_imp_left.mpr fun other => ⟨inside, fun key untouched eq => ?_⟩
      by_cases here : key = present
      · exact other (by rw [← eq, here, same])
      · exact free key (h.distinct.mem_erase_iff.mpr ⟨here, untouched⟩) eq
    · rintro (rfl | ⟨inside, free⟩)
      · refine ⟨there, fun key untouched eq => ?_⟩
        obtain ⟨other, untouched⟩ := h.distinct.mem_erase_iff.mp untouched
        exact other (one key (h.untouched key untouched) eq)
      · exact ⟨inside, fun key untouched => free key (List.mem_of_mem_erase untouched)⟩

/-- **One new entry** is assigned under its folded key. -/
theorem FoldedAs.mergeOne (h : FoldedAs fold s d) (e : DictEntry String ν) :
    FoldedAs fold (mergeOne fold s e) (d.assign (fold e.1) e.2) ∧
      ∀ f, Touched fold (LocalSqlAgent.mergeOne fold s e) (d.assign (fold e.1) e.2) f ↔
        f = fold e.1 ∨ Touched fold s d f := by
  cases found : s.index.lookup (fold e.1) with
  | none => exact h.mergeOne_new (h.lookup_eq_none_iff.mp found)
  | some present => exact h.mergeOne_known found

/-- **The counts of one new entry**: kept and replaced together grow by one exactly when a new entry has had
the key before. -/
theorem FoldedAs.count_mergeOne (h : FoldedAs fold s d) (e : DictEntry String ν) :
    (Touched fold s d (fold e.1) → (LocalSqlAgent.mergeOne fold s e).untouched.length +
      (LocalSqlAgent.mergeOne fold s e).replaced = s.untouched.length + s.replaced + 1) ∧
    (¬ Touched fold s d (fold e.1) → (LocalSqlAgent.mergeOne fold s e).untouched.length +
      (LocalSqlAgent.mergeOne fold s e).replaced = s.untouched.length + s.replaced) := by
  cases found : s.index.lookup (fold e.1) with
  | none =>
    rw [mergeOne_of_none found]
    exact ⟨fun touched => absurd touched.1 (h.lookup_eq_none_iff.mp found), fun _ => rfl⟩
  | some present =>
    obtain ⟨mem, same⟩ := (h.index _ _).mp found
    rw [mergeOne_of_some found]
    constructor
    · intro touched
      have gone : present ∉ s.untouched := fun untouched => touched.2 present untouched same
      show (s.untouched.erase present).length + (s.replaced + 1) = _
      rw [List.erase_of_not_mem gone]
      omega
    · intro fresh
      have untouched : present ∈ s.untouched := by
        by_contra gone
        refine fresh ⟨by rw [← h.keys, ← same]; exact List.mem_map_of_mem mem, fun key inside eq => gone ?_⟩
        exact h.eq_of_fold (h.untouched key inside) mem (eq.trans same.symm) ▸ inside
      have length := List.length_erase_of_mem untouched
      have positive := List.length_pos_of_mem untouched
      show (s.untouched.erase present).length + (s.replaced + 1) = _
      omega

/-- **The whole loop**: the new entries are assigned one after the other under their folded keys. -/
theorem FoldedAs.foldl (h : FoldedAs fold s d) (es : List (DictEntry String ν)) :
    FoldedAs fold (es.foldl (LocalSqlAgent.mergeOne fold) s)
      (es.foldl (fun d e => d.assign (fold e.1) e.2) d) := by
  induction es generalizing s d with
  | nil => exact h
  | cons e es ih => exact ih (h.mergeOne e).1

/-- **The counts of the whole loop**: kept and replaced together are what they were exactly when no new key
comes twice up to case, or was touched before. -/
theorem FoldedAs.count_foldl (h : FoldedAs fold s d) (es : List (DictEntry String ν)) :
    s.untouched.length + s.replaced ≤ (es.foldl (LocalSqlAgent.mergeOne fold) s).untouched.length +
        (es.foldl (LocalSqlAgent.mergeOne fold) s).replaced ∧
      ((es.foldl (LocalSqlAgent.mergeOne fold) s).untouched.length +
          (es.foldl (LocalSqlAgent.mergeOne fold) s).replaced = s.untouched.length + s.replaced ↔
        (es.map fun e => fold e.1).Nodup ∧ ∀ e ∈ es, ¬ Touched fold s d (fold e.1)) := by
  induction es generalizing s d with
  | nil => simp
  | cons e es ih =>
    obtain ⟨next, touched⟩ := h.mergeOne e
    obtain ⟨again, once⟩ := h.count_mergeOne e
    obtain ⟨le, iff⟩ := ih next
    rw [List.foldl_cons]
    by_cases before : Touched fold s d (fold e.1)
    · have more := again before
      refine ⟨by omega, ⟨fun eq => by omega, fun free => ?_⟩⟩
      exact absurd before (free.2 e List.mem_cons_self)
    · have same := once before
      refine ⟨by omega, ?_⟩
      rw [← same, iff, List.map_cons, List.nodup_cons, List.forall_mem_cons]
      constructor
      · rintro ⟨nodup, free⟩
        refine ⟨⟨fun mem => ?_, nodup⟩, before, fun e' mem t => free e' mem ((touched _).mpr (.inr t))⟩
        obtain ⟨e', mem, eq⟩ := List.mem_map.mp mem
        exact free e' mem ((touched _).mpr (.inl eq))
      · rintro ⟨⟨apart, nodup⟩, -, free⟩
        refine ⟨nodup, fun e' mem t => ?_⟩
        obtain eq | t := (touched _).mp t
        · exact apart (eq ▸ List.mem_map_of_mem (f := fun e => fold e.1) mem)
        · exact free e' mem t

end

/-! ## From the old file on -/

theorem nodup_eraseDups (l : List String) : l.eraseDups.Nodup := by
  induction l using List.reverseRecOn with
  | nil => exact List.nodup_nil
  | append_singleton l a ih =>
    rw [List.eraseDups_append]
    by_cases mem : a ∈ l
    · have nothing : [a].removeAll l = [] := by simpa [List.removeAll] using mem
      rw [nothing]
      simpa using ih
    · have fresh : [a].removeAll l = [a] := by simpa [List.removeAll] using mem
      rw [fresh]
      refine List.nodup_append.mpr ⟨ih, List.nodup_singleton a, ?_⟩
      rintro x seen y last rfl
      exact mem (List.mem_eraseDups.mp (List.mem_singleton.mp last ▸ seen))

/-- The collapsed entries under the folded keys they end under. -/
def foldedStart (fold : String → String) (rename : OrderedDict String String) (C : OrderedDict String ν)
    (distinct : (C.keys.map (finalKey fold rename)).Nodup) : OrderedDict String ν where
  entries := C.entries.map fun e => ⟨finalKey fold rename e.1, e.2⟩
  nodupKeys := by
    show ((C.entries.map fun e => (⟨finalKey fold rename e.1, e.2⟩ : DictEntry String ν)).map Sigma.fst).Nodup
    rw [List.map_map]
    rwa [AList.keys, List.keys, List.map_map] at distinct

/-- **Before the first new entry** the mapping has the old entries under their new keys, none touched. -/
theorem foldedAs_mergeStart {C : OrderedDict String ν} (distinct : (C.keys.map (finalKey fold rename)).Nodup) :
    FoldedAs fold (mergeStart fold rename C) (foldedStart fold rename C distinct) ∧
      (∀ f, ¬ Touched fold (mergeStart fold rename C) (foldedStart fold rename C distinct) f) ∧
      (mergeStart fold rename C).untouched.length + (mergeStart fold rename C).replaced = C.size := by
  have spellings : (C.keys.map (renamed fold rename)).Nodup :=
    List.Nodup.of_map fold (by rw [List.map_map]; exact distinct)
  have entries : (mergeStart fold rename C).merged.entries =
      C.entries.map fun e => ⟨renamed fold rename e.1, e.2⟩ := by
    rw [AList.keys, List.keys, List.map_map] at spellings
    have assigned := OrderedDict.entries_ofPairs
      (l := C.entries.map fun e => (renamed fold rename e.1, e.2)) (by rwa [List.map_map])
    rwa [List.map_map] at assigned
  have keys : (mergeStart fold rename C).merged.keys = C.keys.map (renamed fold rename) := by
    rw [AList.keys, List.keys, entries, List.map_map, AList.keys, List.keys, List.map_map]
    rfl
  have folded : FoldedAs fold (mergeStart fold rename C) (foldedStart fold rename C distinct) := by
    refine ⟨?_, fun f key => ?_, fun key mem => mem, (mergeStart fold rename C).merged.nodupKeys⟩
    · rw [entries, List.map_map]
      rfl
    · have index : (mergeStart fold rename C).index.entries =
          C.keys.map fun key => ⟨finalKey fold rename key, renamed fold rename key⟩ := by
        have assigned := OrderedDict.entries_ofPairs
          (l := C.keys.map fun key => (finalKey fold rename key, renamed fold rename key))
          (by rwa [List.map_map])
        rwa [List.map_map] at assigned
      have spelled : (mergeStart fold rename C).index.lookup f = some key ↔
          ∃ old ∈ C.keys, finalKey fold rename old = f ∧ renamed fold rename old = key := by
        refine AList.mem_lookup_iff.trans ?_
        rw [index, List.mem_map]
        refine exists_congr fun old => and_congr_right fun _ => ?_
        rw [Sigma.mk.injEq, heq_eq_eq]
      rw [spelled, keys, List.mem_map]
      constructor
      · rintro ⟨old, mem, rfl, rfl⟩
        exact ⟨⟨old, mem, rfl⟩, rfl⟩
      · rintro ⟨⟨old, mem, rfl⟩, rfl⟩
        exact ⟨old, mem, rfl, rfl⟩
  refine ⟨folded, fun f touched => ?_, ?_⟩
  · obtain ⟨mem, free⟩ := touched
    rw [← folded.keys] at mem
    obtain ⟨key, mem, same⟩ := List.mem_map.mp mem
    exact free key mem same
  · show (mergeStart fold rename C).merged.keys.length + 0 = _
    rw [keys, List.length_map]
    rfl

/-! ### Assignments one after the other -/

theorem mem_foldl_assign_folded {es : List (DictEntry String ν)} {d : OrderedDict String ν} {f : String} :
    f ∈ (es.foldl (fun d e => d.assign (fold e.1) e.2) d).keys ↔ f ∈ d.keys ∨ f ∈ es.map fun e => fold e.1 := by
  induction es generalizing d with
  | nil => simp
  | cons e es ih =>
    have step : f ∈ (d.assign (fold e.1) e.2).keys ↔ f = fold e.1 ∨ f ∈ d.keys := OrderedDict.mem_assign
    rw [List.foldl_cons, ih, step, List.map_cons, List.mem_cons]
    tauto

/-- The keys that were there come first. -/
theorem keys_prefix_foldl_assign (es : List (DictEntry String ν)) (d : OrderedDict String ν) :
    d.keys <+: (es.foldl (fun d e => d.assign (fold e.1) e.2) d).keys := by
  induction es generalizing d with
  | nil => exact List.prefix_rfl
  | cons e es ih =>
    refine List.IsPrefix.trans ?_ (ih _)
    rw [OrderedDict.keys_assign]
    split_ifs
    · exact List.prefix_rfl
    · exact List.prefix_append _ _

/-- A key that is not assigned keeps its value. -/
theorem lookup_foldl_assign_of_notMem {es : List (DictEntry String ν)} {d : OrderedDict String ν} {f : String}
    (absent : f ∉ es.map fun e => fold e.1) :
    (es.foldl (fun d e => d.assign (fold e.1) e.2) d).lookup f = d.lookup f := by
  induction es generalizing d with
  | nil => rfl
  | cons e es ih =>
    rw [List.map_cons, List.mem_cons, not_or] at absent
    rw [List.foldl_cons, ih absent.2, OrderedDict.lookup_assign_of_ne _ _ absent.1]

/-- Each of distinct keys gets its value. -/
theorem lookup_foldl_assign_of_mem {es : List (DictEntry String ν)} {d : OrderedDict String ν}
    (distinct : (es.map fun e => fold e.1).Nodup) {e : DictEntry String ν} (mem : e ∈ es) :
    (es.foldl (fun d e => d.assign (fold e.1) e.2) d).lookup (fold e.1) = some e.2 := by
  induction es generalizing d with
  | nil => exact absurd mem List.not_mem_nil
  | cons first es ih =>
    obtain ⟨apart, distinct⟩ := List.nodup_cons.mp distinct
    obtain rfl | mem := List.mem_cons.mp mem
    · rw [List.foldl_cons, lookup_foldl_assign_of_notMem apart, OrderedDict.lookup_assign_self]
    · exact ih distinct mem

end

/-- **The merge loses nothing exactly when no two new keys are one up to case.** Of two such keys the later
one takes the place of the earlier, which is counted as a replaced entry of the old file. -/
theorem merge_losesNothing_iff (fold : String → String) (rename : OrderedDict String String)
    (combine : ν → ν → ν) (existing new : OrderedDict String ν) :
    LosesNothing fold rename combine existing new
        (mergeMapping fold rename (collapseSameKey fold rename existing combine).1 new).1
        (mergeMapping fold rename (collapseSameKey fold rename existing combine).1 new).2 ↔
      (new.keys.map fold).Nodup := by
  have collapsed := collapseSameKey_invariant fold rename combine existing
  have distinct : ((collapseSameKey fold rename existing combine).1.keys.map (finalKey fold rename)).Nodup := by
    rw [collapsed.keys]
    exact nodup_eraseDups _
  obtain ⟨start, untouched, size⟩ := foldedAs_mergeStart distinct
  have run := start.foldl new.entries
  have new_folds : (new.entries.map fun e => fold e.1) = new.keys.map fold := by
    rw [AList.keys, List.keys, List.map_map]
    rfl
  have old_folds : (foldedStart fold rename _ distinct).keys =
      (existing.keys.map (finalKey fold rename)).eraseDups := by
    rw [← collapsed.keys, AList.keys, List.keys, AList.keys, List.keys, List.map_map]
    exact List.map_map
  constructor
  · intro keeps
    have same := (start.count_foldl new.entries).2.mp (keeps.count.trans size.symm)
    exact new_folds ▸ same.1
  · intro apart
    rw [← new_folds] at apart
    refine ⟨?_, fun f => ?_, fun e mem => ?_, fun f old absent => ?_, ?_, ?_⟩
    · exact run.keys ▸ AList.keys_nodup _
    · show f ∈ (new.entries.foldl (mergeOne fold) _).merged.keys.map fold ↔ _
      rw [run.keys, mem_foldl_assign_folded, old_folds, List.mem_eraseDups, new_folds]
    · exact run.exists_of_lookup (lookup_foldl_assign_of_mem apart mem)
    · rw [← List.mem_eraseDups, ← old_folds] at old
      obtain ⟨value, found⟩ := exists_lookup_of_mem_keys old
      have kept := (lookup_foldl_assign_of_notMem (new_folds ▸ absent)).trans found
      obtain ⟨key, same, there⟩ := run.exists_of_lookup kept
      refine ⟨key, value, same, there, ?_⟩
      obtain ⟨e, inside, eq⟩ := List.mem_map.mp (AList.mem_lookup_iff.mp found)
      cases eq
      exact collapsed.values e inside
    · show _ <+: (new.entries.foldl (mergeOne fold) _).merged.keys.map fold
      rw [run.keys, ← old_folds]
      exact keys_prefix_foldl_assign _ _
    · refine (start.count_foldl new.entries).2.mpr ⟨apart, fun e _ => untouched _⟩ |>.trans size

/-- `str.casefold` on the German street and its spelling in capitals. -/
def streetFold (s : String) : String := if s = "Straße" then "strasse" else if s = "STRASSE" then "strasse" else s

/-- Two new entries whose keys fold alike: the first is lost, and counted as an entry of the old file. -/
theorem first_new_entry_lost :
    ¬ ∀ (fold : String → String) (rename : OrderedDict String String) (combine : ℕ → ℕ → ℕ)
      (existing new : OrderedDict String ℕ),
      LosesNothing fold rename combine existing new
        (mergeMapping fold rename (collapseSameKey fold rename existing combine).1 new).1
        (mergeMapping fold rename (collapseSameKey fold rename existing combine).1 new).2 := by
  intro all
  have count := (all streetFold ∅ (· + ·) ∅ (OrderedDict.ofPairs [("Straße", 1), ("STRASSE", 2)])).count
  exact absurd count (by decide)

end LocalSqlAgent
