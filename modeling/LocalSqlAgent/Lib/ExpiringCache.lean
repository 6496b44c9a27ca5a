import LocalSqlAgent.Lib.OrderedDict
import Mathlib.Order.Lattice

/-! # Bounded caches with expiry

A bounded ordered dictionary whose values carry a deadline, against the map it stands for.

* **`readEntry`**, **`writeEntry`**: the lookup that drops what it finds expired, and the write that
  drops the oldest keys for a new one.
* **`ExpiringMap`**: the abstract map, every key with the value last written and its deadline. It never
  drops anything by itself.
* **`Tracks`**: the dictionary holds what the map does, less what has expired. Reads answer as the map
  reads (`Tracks.read`), and every operation on the dictionary is the same operation on the map. -/

namespace LocalSqlAgent

universe u v w

/-- A value and the time it may be served until. -/
structure Expiring (ν : Type v) (τ : Type w) where
  /-- The value. -/
  value : ν
  /-- The last time it may be served at. -/
  deadline : τ
  deriving DecidableEq, Repr

open OrderedDict

section Operations

variable {κ : Type u} {ν : Type v} {τ : Type w} [DecidableEq κ]

/-- Look a key up. What is found expired is dropped, what is served becomes the newest. -/
def readEntry [LinearOrder τ] (now : τ) (k : κ) (d : OrderedDict κ (Expiring ν τ)) :
    Option ν × OrderedDict κ (Expiring ν τ) :=
  match d.lookup k with
  | none => (none, d)
  | some e => if e.deadline < now then (none, d.erase k) else (some e.value, d.put k e)

/-- Write a key: a stored one is renewed, a new one first drops the oldest while `bound` are held.
`none` where the dictionary runs empty before there is room. -/
def writeEntry (bound : ℤ) (k : κ) (e : Expiring ν τ) (d : OrderedDict κ (Expiring ν τ)) :
    Option (List κ × OrderedDict κ (Expiring ν τ)) :=
  if k ∈ d then some ([], d.put k e)
  else (makeRoom bound d).map fun r => (r.1, r.2.put k e)

/-- A read does not make the dictionary larger. -/
theorem size_readEntry_le [LinearOrder τ] (now : τ) (k : κ) (d : OrderedDict κ (Expiring ν τ)) :
    size (readEntry now k d).2 ≤ size d := by
  unfold readEntry
  cases hlookup : d.lookup k with
  | none => exact le_rfl
  | some e =>
    dsimp only
    split
    · exact size_erase_le d k
    · have hmem : k ∈ d := AList.lookup_isSome.mp (by rw [hlookup]; rfl)
      exact Nat.le_of_eq (size_put_of_mem d e hmem)

variable {bound : ℤ} {k : κ} {e : Expiring ν τ} {d d' : OrderedDict κ (Expiring ν τ)} {dropped : List κ}

/-- A write fails exactly for a new key under a bound below one. -/
theorem writeEntry_eq_none_iff : writeEntry bound k e d = none ↔ k ∉ d ∧ bound ≤ 0 := by
  unfold writeEntry
  split
  · rename_i hmem
    simp [hmem]
  · rename_i hmem
    rw [Option.map_eq_none_iff, makeRoom_eq_none_iff]
    exact (and_iff_right hmem).symm

/-- **What a write does**: renew the stored key, or put the new one where room was made for it. -/
theorem writeEntry_cases (h : writeEntry bound k e d = some (dropped, d')) :
    (k ∈ d ∧ dropped = [] ∧ d' = d.put k e) ∨
      (k ∉ d ∧ ∃ rest, Roomy bound d dropped rest ∧ d' = rest.put k e) := by
  unfold writeEntry at h
  split at h
  · rename_i hmem
    cases h
    exact .inl ⟨hmem, rfl, rfl⟩
  · rename_i hmem
    obtain ⟨⟨ks, rest⟩, hroom, heq⟩ := Option.map_eq_some_iff.mp h
    cases heq
    exact .inr ⟨hmem, rest, makeRoom_roomy hroom, rfl⟩

/-- A written key is not among the dropped ones. -/
theorem notMem_dropped (h : writeEntry bound k e d = some (dropped, d')) : k ∉ dropped := by
  obtain ⟨-, rfl, -⟩ | ⟨hnew, rest, hroom, -⟩ := writeEntry_cases h
  · exact List.not_mem_nil
  · intro hmem
    rw [AList.mem_keys, hroom.keys] at hnew
    exact hnew (List.mem_append_left _ hmem)

/-- A write stays within its bound. -/
theorem size_writeEntry_le (h : writeEntry bound k e d = some (dropped, d')) (hsize : (size d : ℤ) ≤ bound) :
    (size d' : ℤ) ≤ bound := by
  obtain ⟨hmem, -, rfl⟩ | ⟨hnew, rest, hroom, rfl⟩ := writeEntry_cases h
  · rw [size_put_of_mem d e hmem]
    exact hsize
  · have hlt := hroom.room
    rw [size_put_of_notMem rest e (hroom.notMem hnew)]
    push_cast
    omega

/-- A write drops keys only for a new one, and only as many as leave the dictionary full. -/
theorem dropped_of_full (h : writeEntry bound k e d = some (dropped, d')) (hne : dropped ≠ []) :
    k ∉ d ∧ (size d' : ℤ) = bound := by
  obtain ⟨-, rfl, -⟩ | ⟨hnew, rest, hroom, rfl⟩ := writeEntry_cases h
  · exact absurd rfl hne
  · refine ⟨hnew, ?_⟩
    rw [size_put_of_notMem rest e (hroom.notMem hnew)]
    push_cast
    exact hroom.needed hne

end Operations

/-! ## The map behind the cache -/

/-- Every key with the value last written under it and its deadline. -/
def ExpiringMap (κ : Type u) (ν : Type v) (τ : Type w) := κ → Option (Expiring ν τ)

namespace ExpiringMap

variable {κ : Type u} {ν : Type v} {τ : Type w}

/-- The map nothing was written to. -/
def empty : ExpiringMap κ ν τ := fun _ => none

/-- The map with one key written. -/
def write [DecidableEq κ] (k : κ) (e : Expiring ν τ) (m : ExpiringMap κ ν τ) : ExpiringMap κ ν τ :=
  fun k' => if k' = k then some e else m k'

/-- The map without some keys. -/
def drop [DecidableEq κ] (ks : List κ) (m : ExpiringMap κ ν τ) : ExpiringMap κ ν τ := fun k => if k ∈ ks then none else m k

/-- The value under a key, unless its deadline has passed. -/
def read [LinearOrder τ] (now : τ) (k : κ) (m : ExpiringMap κ ν τ) : Option ν :=
  match m k with
  | none => none
  | some e => if now ≤ e.deadline then some e.value else none

theorem read_eq_some_iff [LinearOrder τ] {now : τ} {k : κ} {m : ExpiringMap κ ν τ} {v : ν} :
    m.read now k = some v ↔ ∃ e, m k = some e ∧ now ≤ e.deadline ∧ e.value = v := by
  unfold read
  cases m k with
  | none => simp
  | some e => simp

/-- Dropping nothing changes nothing. -/
@[simp] theorem drop_nil [DecidableEq κ] (m : ExpiringMap κ ν τ) : m.drop [] = m := by
  funext k
  simp [drop]

end ExpiringMap

/-- **The dictionary tracks the map**: what it stores is what the map has, and what it lacks the map
lacks too, or has past its deadline. -/
structure Tracks {κ : Type u} {ν : Type v} {τ : Type w} [DecidableEq κ] [LinearOrder τ]
    (m : ExpiringMap κ ν τ) (now : τ) (d : OrderedDict κ (Expiring ν τ)) : Prop where
  /-- What is stored was written last. -/
  stored : ∀ k e, d.lookup k = some e → m k = some e
  /-- What is not stored has expired, where it was written. -/
  expired : ∀ k e, d.lookup k = none → m k = some e → e.deadline < now

namespace Tracks

variable {κ : Type u} {ν : Type v} {τ : Type w} [DecidableEq κ] [LinearOrder τ]
  {m : ExpiringMap κ ν τ} {now : τ} {d d' : OrderedDict κ (Expiring ν τ)}

/-- Nothing stored, nothing written. -/
theorem empty : Tracks (ExpiringMap.empty : ExpiringMap κ ν τ) now ∅ :=
  ⟨fun k e h => by simp at h, fun k e _ h => nomatch h⟩

/-- Time only expires more. -/
theorem later (h : Tracks m now d) {now' : τ} (hle : now ≤ now') : Tracks m now' d :=
  ⟨h.stored, fun k e hnone hm => lt_of_lt_of_le (h.expired k e hnone hm) hle⟩

/-- **A read of the dictionary answers as a read of the map.** -/
theorem readEntry_fst (h : Tracks m now d) (k : κ) : (readEntry now k d).1 = m.read now k := by
  unfold readEntry ExpiringMap.read
  cases hlookup : d.lookup k with
  | none =>
    cases hm : m k with
    | none => rfl
    | some e =>
      have hpast : ¬ now ≤ e.deadline := not_le.mpr (h.expired k e hlookup hm)
      exact (if_neg hpast).symm
  | some e =>
    rw [h.stored k e hlookup]
    dsimp only
    by_cases hpast : e.deadline < now
    · rw [if_pos hpast, if_neg (not_le.mpr hpast)]
    · rw [if_neg hpast, if_pos (not_lt.mp hpast)]

/-- A read changes nothing the map would show. -/
theorem readEntry_snd (h : Tracks m now d) (k : κ) : Tracks m now (readEntry now k d).2 := by
  unfold readEntry
  cases hlookup : d.lookup k with
  | none => exact h
  | some e =>
    dsimp only
    split
    · -- the key is dropped, its deadline having passed
      rename_i hpast
      refine ⟨fun k' e' hstored => ?_, fun k' e' hnone hm => ?_⟩
      · by_cases hk : k' = k
        · subst hk
          rw [AList.lookup_erase] at hstored
          cases hstored
        · rw [AList.lookup_erase_ne hk] at hstored
          exact h.stored k' e' hstored
      · by_cases hk : k' = k
        · subst hk
          rw [h.stored k' e hlookup] at hm
          cases hm
          exact hpast
        · rw [AList.lookup_erase_ne hk] at hnone
          exact h.expired k' e' hnone hm
    · -- the key becomes the newest with the value it had
      have hsame : ∀ k', (d.put k e).lookup k' = d.lookup k' := by
        intro k'
        by_cases hk : k' = k
        · rw [hk, lookup_put_self, hlookup]
        · exact lookup_put_of_ne d e hk
      exact ⟨fun k' e' hstored => h.stored k' e' (hsame k' ▸ hstored),
        fun k' e' hnone hm => h.expired k' e' (hsame k' ▸ hnone) hm⟩

/-- Putting a key in writes it. -/
theorem put (h : Tracks m now d) (k : κ) (e : Expiring ν τ) : Tracks (m.write k e) now (d.put k e) := by
  refine ⟨fun k' e' hstored => ?_, fun k' e' hnone hm => ?_⟩
  · by_cases hk : k' = k
    · subst hk
      rw [lookup_put_self] at hstored
      rw [ExpiringMap.write, if_pos rfl, hstored]
    · rw [lookup_put_of_ne d e hk] at hstored
      rw [ExpiringMap.write, if_neg hk]
      exact h.stored k' e' hstored
  · by_cases hk : k' = k
    · subst hk
      rw [lookup_put_self] at hnone
      cases hnone
    · rw [lookup_put_of_ne d e hk] at hnone
      rw [ExpiringMap.write, if_neg hk] at hm
      exact h.expired k' e' hnone hm

/-- Making room drops the keys from the map. -/
theorem room {bound : ℤ} {dropped : List κ} (h : Tracks m now d) (hroom : Roomy bound d dropped d') :
    Tracks (m.drop dropped) now d' := by
  refine ⟨fun k e hstored => ?_, fun k e hnone hm => ?_⟩
  · by_cases hk : k ∈ dropped
    · rw [hroom.lookup_dropped hk] at hstored
      cases hstored
    · rw [hroom.lookup_eq hk] at hstored
      rw [ExpiringMap.drop, if_neg hk]
      exact h.stored k e hstored
  · by_cases hk : k ∈ dropped
    · rw [ExpiringMap.drop, if_pos hk] at hm
      cases hm
    · rw [hroom.lookup_eq hk] at hnone
      rw [ExpiringMap.drop, if_neg hk] at hm
      exact h.expired k e hnone hm

/-- **A write of the dictionary is a write of the map**, less the keys dropped for it. -/
theorem writeEntry {bound : ℤ} {k : κ} {e : Expiring ν τ} {dropped : List κ} (h : Tracks m now d)
    (hwrite : writeEntry bound k e d = some (dropped, d')) :
    Tracks ((m.drop dropped).write k e) now d' := by
  obtain ⟨-, rfl, rfl⟩ | ⟨-, rest, hroom, rfl⟩ := writeEntry_cases hwrite
  · rw [ExpiringMap.drop_nil]
    exact h.put k e
  · exact (h.room hroom).put k e

end Tracks

end LocalSqlAgent
