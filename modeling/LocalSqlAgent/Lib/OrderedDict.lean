import Mathlib.Data.List.AList
import Mathlib.Data.List.Induction

/-! # Ordered dictionaries

A dictionary that remembers the order its keys were last put in, oldest first: an association list
without duplicate keys whose new and renewed keys go to the end. Bounded caches are built on it: every
use moves a key to the end, so the front is the key unused for longest.

* **`put`**: a key's value, new or renewed, moved to the end.
* **`popOldest`**: the dictionary without its front key, `none` when it is empty.
* **`makeRoom`**: drop front keys until fewer than `bound` are left, `none` when the dictionary runs
  empty first.
* **`keepNewest`**: the newest keys, as many as there is room for.
* **`assign`**: a key's value where the key stands, a new key at the end: the plain `d[k] = v`. -/

namespace LocalSqlAgent

universe u v

variable {κ : Type u} {ν : Type v}

/-- An association list without duplicate keys, oldest key first. -/
abbrev OrderedDict (κ : Type u) (ν : Type v) := AList fun _ : κ => ν

/-- A key with its value. -/
abbrev DictEntry (κ : Type u) (ν : Type v) := Sigma fun _ : κ => ν

namespace OrderedDict

/-- Number of keys. -/
def size (d : OrderedDict κ ν) : ℕ := d.keys.length

@[simp] theorem size_empty : size (∅ : OrderedDict κ ν) = 0 := rfl

theorem size_eq_entries (d : OrderedDict κ ν) : d.size = d.entries.length := by
  unfold size AList.keys List.keys
  rw [List.length_map]

section Put

variable [DecidableEq κ]

/-- Put a value under a key and move the key to the end. -/
def put (d : OrderedDict κ ν) (k : κ) (v : ν) : OrderedDict κ ν where
  entries := d.entries.kerase k ++ [⟨k, v⟩]
  nodupKeys := by
    have hperm : (d.entries.kerase k ++ [(⟨k, v⟩ : DictEntry κ ν)]).Perm
        (⟨k, v⟩ :: d.entries.kerase k) := List.perm_append_singleton _ _
    refine (List.perm_nodupKeys hperm).mpr (List.nodupKeys_cons.mpr ⟨?_, d.nodupKeys.kerase k⟩)
    exact List.notMem_keys_kerase k d.nodupKeys

theorem keys_put (d : OrderedDict κ ν) (k : κ) (v : ν) : (d.put k v).keys = d.keys.erase k ++ [k] := by
  have herase : (d.entries.kerase k).keys = d.keys.erase k := List.keys_kerase
  rw [← herase]
  simp [put, List.keys]

theorem mem_put {d : OrderedDict κ ν} {k k' : κ} {v : ν} : k' ∈ d.put k v ↔ k' = k ∨ k' ∈ d := by
  rw [AList.mem_keys, AList.mem_keys, keys_put, List.mem_append, List.mem_singleton, or_comm]
  by_cases h : k' = k
  · exact iff_of_true (.inl h) (.inl h)
  · rw [List.mem_erase_of_ne h]

@[simp] theorem lookup_put_self (d : OrderedDict κ ν) (k : κ) (v : ν) : (d.put k v).lookup k = some v := by
  have hnone : (d.entries.kerase k).dlookup k = none := List.dlookup_kerase k d.nodupKeys
  show (d.entries.kerase k ++ [(⟨k, v⟩ : DictEntry κ ν)]).dlookup k = some v
  rw [List.dlookup_append, hnone]
  simp

theorem lookup_put_of_ne (d : OrderedDict κ ν) {k k' : κ} (v : ν) (h : k' ≠ k) :
    (d.put k v).lookup k' = d.lookup k' := by
  show (d.entries.kerase k ++ [(⟨k, v⟩ : DictEntry κ ν)]).dlookup k' = d.entries.dlookup k'
  rw [List.dlookup_append, List.dlookup_kerase_ne h]
  simp [h]

theorem size_put_of_mem (d : OrderedDict κ ν) {k : κ} (v : ν) (h : k ∈ d) : (d.put k v).size = d.size := by
  have hpos : 0 < d.keys.length := List.length_pos_of_mem h
  unfold size
  rw [keys_put, List.length_append, List.length_erase_of_mem h, List.length_singleton]
  omega

theorem size_put_of_notMem (d : OrderedDict κ ν) {k : κ} (v : ν) (h : k ∉ d) :
    (d.put k v).size = d.size + 1 := by
  unfold size
  rw [keys_put, List.erase_of_not_mem h, List.length_append, List.length_singleton]

theorem size_erase_le (d : OrderedDict κ ν) (k : κ) : size (d.erase k) ≤ d.size := by
  unfold size
  rw [AList.keys_erase]
  exact List.length_erase_le

end Put

/-! ## Dropping the oldest -/

/-- The dictionary without its oldest key, and that key. -/
def popOldest (d : OrderedDict κ ν) : Option (κ × OrderedDict κ ν) :=
  match d with
  | ⟨[], _⟩ => none
  | ⟨e :: rest, h⟩ => some (e.1, ⟨rest, (List.nodupKeys_cons.mp h).2⟩)

/-- Nothing can be dropped exactly when the dictionary is empty. -/
theorem popOldest_eq_none_iff {d : OrderedDict κ ν} : d.popOldest = none ↔ d.size = 0 := by
  obtain ⟨entries, h⟩ := d
  rw [size_eq_entries]
  cases entries <;> simp [popOldest]

/-- The dropped key was the front one. -/
theorem keys_of_popOldest {d d' : OrderedDict κ ν} {k : κ} (h : d.popOldest = some (k, d')) :
    d.keys = k :: d'.keys := by
  obtain ⟨entries, hd⟩ := d
  cases entries with
  | nil => cases h
  | cons e rest =>
    cases h
    rfl

theorem size_of_popOldest {d d' : OrderedDict κ ν} {k : κ} (h : d.popOldest = some (k, d')) :
    d.size = d'.size + 1 := by
  unfold size
  rw [keys_of_popOldest h, List.length_cons]

theorem lookup_of_popOldest [DecidableEq κ] {d d' : OrderedDict κ ν} {k k' : κ}
    (h : d.popOldest = some (k, d')) (hk : k' ≠ k) : d'.lookup k' = d.lookup k' := by
  obtain ⟨entries, hd⟩ := d
  cases entries with
  | nil => cases h
  | cons e rest =>
    cases h
    exact (List.dlookup_cons_ne _ _ hk).symm

/-- The dropped key is gone: keys do not repeat. -/
theorem notMem_of_popOldest {d d' : OrderedDict κ ν} {k : κ} (h : d.popOldest = some (k, d')) :
    k ∉ d' := by
  have hnodup := d.keys_nodup
  rw [keys_of_popOldest h] at hnodup
  exact (List.nodup_cons.mp hnodup).1

/-- The `n` newest keys with their values. -/
def keepNewest (n : ℕ) (d : OrderedDict κ ν) : OrderedDict κ ν where
  entries := d.entries.drop (d.size - n)
  nodupKeys := d.nodupKeys.sublist (List.drop_sublist _ _)

/-- Nothing is dropped while no more are held. -/
theorem keepNewest_of_le {n : ℕ} {d : OrderedDict κ ν} (h : d.size ≤ n) : d.keepNewest n = d := by
  refine AList.ext ?_
  show d.entries.drop (d.size - n) = d.entries
  rw [Nat.sub_eq_zero_of_le h, List.drop_zero]

/-- Drop oldest keys while at least `bound` are held, with the dropped keys in order; `none` when the
dictionary runs empty before that, as only a `bound` below one lets it. -/
def makeRoom (bound : ℤ) (d : OrderedDict κ ν) : Option (List κ × OrderedDict κ ν) :=
  go d.entries d.nodupKeys
where
  go : (entries : List (DictEntry κ ν)) → entries.NodupKeys →
      Option (List κ × OrderedDict κ ν)
    | [], h => if bound ≤ 0 then none else some ([], ⟨[], h⟩)
    | e :: rest, h =>
      if bound ≤ rest.length + 1 then
        (go rest (List.nodupKeys_cons.mp h).2).map fun r => (e.1 :: r.1, r.2)
      else some ([], ⟨e :: rest, h⟩)

/-- What `makeRoom` leaves: the keys after the dropped ones, in their order, fewer than `bound` of
them, and as many as that allows. -/
structure Roomy (bound : ℤ) (d : OrderedDict κ ν) (dropped : List κ) (d' : OrderedDict κ ν) : Prop where
  /-- The dropped keys were the oldest. -/
  keys : d.keys = dropped ++ d'.keys
  /-- The kept entries are unchanged. -/
  suffix : d'.entries <:+ d.entries
  /-- There is room for one more. -/
  room : (d'.size : ℤ) < bound
  /-- Nothing was dropped without need. -/
  needed : dropped ≠ [] → (d'.size : ℤ) + 1 = bound

theorem makeRoom_roomy {bound : ℤ} {d d' : OrderedDict κ ν} {dropped : List κ}
    (h : makeRoom bound d = some (dropped, d')) : Roomy bound d dropped d' := by
  obtain ⟨entries, hd⟩ := d
  change makeRoom.go bound entries hd = some (dropped, d') at h
  induction entries generalizing dropped with
  | nil =>
    rw [makeRoom.go] at h
    split at h
    · cases h
    · cases h
      refine ⟨rfl, List.suffix_rfl, ?_, fun hne => absurd rfl hne⟩
      show ((0 : ℕ) : ℤ) < bound
      omega
  | cons e rest ih =>
    rw [makeRoom.go] at h
    split at h
    · rename_i hfull
      obtain ⟨⟨ks, d₁⟩, hgo, heq⟩ := Option.map_eq_some_iff.mp h
      cases heq
      have hrest : Roomy bound _ ks d₁ := ih _ hgo
      have hroom : (size d₁ : ℤ) < bound := hrest.room
      refine ⟨congrArg (e.1 :: ·) hrest.keys, hrest.suffix.trans (List.suffix_cons _ _), hrest.room,
        fun _ => ?_⟩
      -- the front key went because the rest and it were too many; either the rest was still too
      -- many, or it was exactly one short of the bound
      by_cases hks : ks = []
      · have hkeys : size (⟨rest, (List.nodupKeys_cons.mp hd).2⟩ : OrderedDict κ ν) = size d₁ := by
          unfold size
          rw [hrest.keys, hks, List.nil_append]
        rw [size_eq_entries] at hkeys
        show (size d₁ : ℤ) + 1 = bound
        dsimp only at hkeys
        omega
      · exact hrest.needed hks
    · rename_i hroom
      cases h
      refine ⟨rfl, List.suffix_rfl, ?_, fun hne => absurd rfl hne⟩
      rw [size_eq_entries, List.length_cons]
      push_cast
      omega

/-- Making room fails exactly for a bound below one. -/
theorem makeRoom_eq_none_iff {bound : ℤ} {d : OrderedDict κ ν} : makeRoom bound d = none ↔ bound ≤ 0 := by
  obtain ⟨entries, hd⟩ := d
  show makeRoom.go bound entries hd = none ↔ bound ≤ 0
  induction entries with
  | nil =>
    rw [makeRoom.go]
    split <;> simp_all
  | cons e rest ih =>
    rw [makeRoom.go]
    split
    · rw [Option.map_eq_none_iff]
      exact ih _
    · have : ¬ bound ≤ 0 := by omega
      simp [this]

namespace Roomy

variable {bound : ℤ} {d d' : OrderedDict κ ν} {dropped : List κ}

/-- Making room brings no key in. -/
theorem notMem (h : Roomy bound d dropped d') {k : κ} (hk : k ∉ d) : k ∉ d' := by
  rw [AList.mem_keys, h.keys] at hk
  exact fun hmem => hk (List.mem_append_right _ hmem)

/-- A kept key keeps its value. -/
theorem lookup_eq [DecidableEq κ] (h : Roomy bound d dropped d') {k : κ} (hk : k ∉ dropped) :
    d'.lookup k = d.lookup k := by
  obtain ⟨front, hfront⟩ := h.suffix
  have hkeys : d.keys = front.keys ++ d'.keys := by
    unfold AList.keys
    rw [← hfront]
    simp [List.keys]
  have hdropped : dropped = front.keys := List.append_cancel_right (h.keys.symm.trans hkeys)
  have hnone : front.dlookup k = none := List.dlookup_eq_none.mpr (hdropped ▸ hk)
  show d'.entries.dlookup k = d.entries.dlookup k
  rw [← hfront, List.dlookup_append, hnone, Option.none_or]

/-- A dropped key is gone. -/
theorem lookup_dropped [DecidableEq κ] (h : Roomy bound d dropped d') {k : κ} (hk : k ∈ dropped) :
    d'.lookup k = none := by
  have hnodup := d.keys_nodup
  rw [h.keys] at hnodup
  exact AList.lookup_eq_none.mpr fun hmem => (List.nodup_append.mp hnodup).2.2 k hk k hmem rfl

end Roomy

/-! ## Assignment in place -/

section Assign

variable [DecidableEq κ]

/-- The entries after `d[k] = v`. -/
def assignEntry (k : κ) (v : ν) : List (DictEntry κ ν) → List (DictEntry κ ν)
  | [] => [⟨k, v⟩]
  | e :: rest => if e.1 = k then ⟨k, v⟩ :: rest else e :: assignEntry k v rest

theorem keys_assignEntry (k : κ) (v : ν) (l : List (DictEntry κ ν)) :
    (assignEntry k v l).keys = if k ∈ l.keys then l.keys else l.keys ++ [k] := by
  induction l with
  | nil => rfl
  | cons e rest ih =>
    rw [assignEntry]
    by_cases hk : e.1 = k
    · subst hk
      simp
    · have hne : k ≠ e.1 := fun h => hk h.symm
      rw [if_neg hk, List.keys_cons, List.keys_cons, ih]
      by_cases hmem : k ∈ rest.keys <;> simp [hmem, hne]

/-- `d[k] = v`: a known key keeps its place, a new one goes to the end. -/
def assign (d : OrderedDict κ ν) (k : κ) (v : ν) : OrderedDict κ ν where
  entries := assignEntry k v d.entries
  nodupKeys := by
    have hnodup : d.entries.keys.Nodup := d.nodupKeys
    show (assignEntry k v d.entries).keys.Nodup
    rw [keys_assignEntry]
    split
    · exact hnodup
    · rename_i hnot
      exact hnodup.append (List.nodup_singleton k) (by simpa using hnot)

theorem keys_assign (d : OrderedDict κ ν) (k : κ) (v : ν) :
    (d.assign k v).keys = if k ∈ d.keys then d.keys else d.keys ++ [k] :=
  keys_assignEntry k v d.entries

@[simp] theorem mem_assign {d : OrderedDict κ ν} {k k' : κ} {v : ν} :
    k' ∈ d.assign k v ↔ k' = k ∨ k' ∈ d := by
  rw [AList.mem_keys, AList.mem_keys, keys_assign]
  by_cases hmem : k ∈ d.keys
  · rw [if_pos hmem]
    exact ⟨Or.inr, fun h => h.elim (fun heq => heq ▸ hmem) id⟩
  · rw [if_neg hmem, List.mem_append, List.mem_singleton, or_comm]

@[simp] theorem lookup_assign_self (d : OrderedDict κ ν) (k : κ) (v : ν) :
    (d.assign k v).lookup k = some v := by
  obtain ⟨entries, h⟩ := d
  show (assignEntry k v entries).dlookup k = some v
  clear h
  induction entries with
  | nil => simp [assignEntry]
  | cons e rest ih =>
    rw [assignEntry]
    by_cases hk : e.1 = k
    · simp [hk]
    · rw [if_neg hk, List.dlookup_cons_ne _ _ (fun h => hk h.symm)]
      exact ih

theorem lookup_assign_of_ne (d : OrderedDict κ ν) {k k' : κ} (v : ν) (h : k' ≠ k) :
    (d.assign k v).lookup k' = d.lookup k' := by
  obtain ⟨entries, hd⟩ := d
  show (assignEntry k v entries).dlookup k' = entries.dlookup k'
  clear hd
  induction entries with
  | nil => simp [assignEntry, h]
  | cons e rest ih =>
    rw [assignEntry]
    by_cases hk : e.1 = k
    · obtain ⟨a, b⟩ := e
      cases hk
      have hne : k' ≠ a := h
      simp [hne]
    · rw [if_neg hk]
      by_cases hk' : k' = e.1
      · obtain ⟨a, b⟩ := e
        cases hk'
        simp
      · rw [List.dlookup_cons_ne _ _ hk', List.dlookup_cons_ne _ _ hk', ih]

/-- **A loop that only adds**: what each step adds to a property of the state, the whole loop adds. -/
theorem foldl_iff_or {σ α : Type*} (step : σ → α → σ) (P : σ → Prop) (Q : α → Prop)
    (hstep : ∀ s a, P (step s a) ↔ P s ∨ Q a) (l : List α) (s : σ) :
    P (l.foldl step s) ↔ P s ∨ ∃ a ∈ l, Q a := by
  induction l generalizing s with
  | nil => simp
  | cons a rest ih => rw [List.foldl_cons, ih, hstep, List.exists_mem_cons_iff, or_assoc]

/-- The dictionary of a list of assignments, in order. -/
def ofPairs (l : List (κ × ν)) : OrderedDict κ ν := l.foldl (fun d p => d.assign p.1 p.2) ∅

theorem mem_foldl_assign {l : List (κ × ν)} {d : OrderedDict κ ν} {k : κ} :
    k ∈ l.foldl (fun d p => d.assign p.1 p.2) d ↔ k ∈ d ∨ ∃ p ∈ l, k = p.1 :=
  foldl_iff_or _ (fun d => k ∈ d) (fun p => k = p.1) (fun _ _ => mem_assign.trans or_comm) l d

theorem mem_ofPairs {l : List (κ × ν)} {k : κ} : k ∈ ofPairs l ↔ ∃ p ∈ l, k = p.1 := by
  rw [ofPairs, mem_foldl_assign]
  exact or_iff_right (AList.notMem_empty k)

theorem assignEntry_of_notMem {k : κ} (v : ν) {l : List (DictEntry κ ν)} (h : k ∉ l.keys) :
    assignEntry k v l = l ++ [⟨k, v⟩] := by
  induction l with
  | nil => rfl
  | cons e rest ih =>
    rw [List.keys_cons, List.mem_cons, not_or] at h
    rw [assignEntry, if_neg (Ne.symm h.1), ih h.2, List.cons_append]

/-- Assigning to a known key replaces its entry where it stands. -/
theorem assignEntry_of_mem {k : κ} (v : ν) {l : List (DictEntry κ ν)} (h : k ∈ l.keys) (hl : l.keys.Nodup) :
    assignEntry k v l = l.map fun e => if e.1 = k then ⟨k, v⟩ else e := by
  induction l with
  | nil => exact absurd h List.not_mem_nil
  | cons e rest ih =>
    rw [List.keys_cons, List.nodup_cons] at hl
    rw [assignEntry, List.map_cons]
    by_cases hk : e.1 = k
    · have hrest : rest.map (fun e => if e.1 = k then (⟨k, v⟩ : DictEntry κ ν) else e) = rest := by
        refine (List.map_congr_left fun x hx => if_neg fun hxk => hl.1 ?_).trans (List.map_id rest)
        rw [hk, ← hxk]
        exact List.mem_map_of_mem hx
      rw [if_pos hk, if_pos hk, hrest]
    · rw [if_neg hk, if_neg hk, ih ((List.mem_cons.mp h).resolve_left (Ne.symm hk)) hl.2]

/-- **Assignments to distinct keys** are the entries, in order. -/
theorem entries_ofPairs {l : List (κ × ν)} (h : (l.map (·.1)).Nodup) :
    (ofPairs l).entries = l.map fun p => ⟨p.1, p.2⟩ := by
  unfold ofPairs
  -- the induction takes the last assignment off
  induction l using List.reverseRecOn with
  | nil => rfl
  | append_singleton l p ih =>
    rw [List.map_append, List.nodup_append] at h
    have hl := ih h.1
    have hnot : p.1 ∉ (List.foldl (fun d p => d.assign p.1 p.2) (∅ : OrderedDict κ ν) l).entries.keys := by
      rw [hl, List.keys, List.map_map]
      exact fun hmem => h.2.2 p.1 hmem p.1 (List.mem_singleton_self _) rfl
    rw [List.foldl_append, List.map_append, ← hl]
    exact assignEntry_of_notMem p.2 hnot

theorem mem_assignEntry {k : κ} {v : ν} {l : List (DictEntry κ ν)} {e : DictEntry κ ν}
    (h : e ∈ assignEntry k v l) : e = ⟨k, v⟩ ∨ e ∈ l := by
  induction l with
  | nil => exact .inl (List.mem_singleton.mp h)
  | cons x rest ih =>
    rw [assignEntry] at h
    split at h
    · exact (List.mem_cons.mp h).imp_right (List.mem_cons_of_mem x)
    · obtain rfl | h := List.mem_cons.mp h
      · exact .inr List.mem_cons_self
      · exact (ih h).imp_right (List.mem_cons_of_mem x)

/-- Every entry is one of the assignments. -/
theorem exists_of_mem_ofPairs {l : List (κ × ν)} {e : DictEntry κ ν} (h : e ∈ (ofPairs l).entries) :
    ∃ p ∈ l, e = ⟨p.1, p.2⟩ := by
  unfold ofPairs at h
  induction l using List.reverseRecOn with
  | nil => exact absurd h List.not_mem_nil
  | append_singleton l p ih =>
    rw [List.foldl_append] at h
    obtain rfl | h := mem_assignEntry h
    · exact ⟨p, List.mem_append_right _ (List.mem_singleton_self p), rfl⟩
    · obtain ⟨q, hq, heq⟩ := ih h
      exact ⟨q, List.mem_append_left _ hq, heq⟩

/-- **Assigning among some keys**: an assignment to another key is not seen there. -/
theorem filter_assignEntry (p : κ → Bool) (k : κ) (v : ν) (l : List (DictEntry κ ν)) :
    (assignEntry k v l).filter (fun e => p e.1) =
      if p k then assignEntry k v (l.filter fun e => p e.1) else l.filter fun e => p e.1 := by
  induction l with
  | nil => cases hp : p k <;> simp [assignEntry, hp]
  | cons e rest ih =>
    rw [assignEntry]
    by_cases hk : e.1 = k
    · cases hp : p k with
      | true => simp [assignEntry, hk, hp]
      | false => simp [hk, hp]
    · rw [if_neg hk, List.filter_cons, List.filter_cons, ih]
      cases he : p e.1 <;> cases hp : p k <;> simp [assignEntry, hk]

/-- A key is looked up among the keys of a predicate it meets. -/
theorem dlookup_filter {p : κ → Bool} {k : κ} (h : p k = true) (l : List (DictEntry κ ν)) :
    (l.filter fun e => p e.1).dlookup k = l.dlookup k := by
  induction l with
  | nil => rfl
  | cons e rest ih =>
    obtain ⟨k', v⟩ := e
    by_cases hk : k = k'
    · subst hk
      rw [List.filter_cons_of_pos (p := fun e : DictEntry κ ν => p e.1) h, List.dlookup_cons_eq,
        List.dlookup_cons_eq]
    · rw [List.dlookup_cons_ne _ _ hk, List.filter_cons]
      split
      · rw [List.dlookup_cons_ne _ _ hk, ih]
      · exact ih

/-- **A key's value** is decided by the assignments to it. -/
theorem lookup_ofPairs_filter (l : List (κ × ν)) (k : κ) :
    (ofPairs l).lookup k = (ofPairs (l.filter fun p => decide (p.1 = k))).lookup k := by
  unfold ofPairs
  -- the last assignment decides, or is to another key
  induction l using List.reverseRecOn with
  | nil => rfl
  | append_singleton l p ih =>
    rw [List.filter_append, List.foldl_append, List.foldl_append]
    by_cases hk : p.1 = k
    · have hlast : [p].filter (fun p => decide (p.1 = k)) = [p] :=
        List.filter_cons_of_pos (decide_eq_true hk)
      rw [hlast, ← hk]
      exact (lookup_assign_self _ _ _).trans (lookup_assign_self _ _ _).symm
    · have hlast : [p].filter (fun p => decide (p.1 = k)) = [] :=
        List.filter_cons_of_neg (by simpa using hk)
      rw [hlast]
      exact (lookup_assign_of_ne _ _ (Ne.symm hk)).trans ih

end Assign

end OrderedDict

end LocalSqlAgent
