import Mathlib.Data.List.Perm.Basic

/-! # Pools of calls

Any number of calls in flight, kept in a list and addressed by index: a step replaces one of them. What a
step changes about the pool is read off the call before and the call after. -/

namespace LocalSqlAgent

universe u

variable {α : Type u} {pool : List α} {i : ℕ} {a b : α} {p : α → Bool}

/-- **Counting**: replacing one call trades its own count for the new one's. -/
theorem Pool.countP_set (h : pool[i]? = some a) :
    (pool.set i b).countP p + (if p a then 1 else 0) = pool.countP p + if p b then 1 else 0 := by
  obtain ⟨hi, rfl⟩ := List.getElem?_eq_some_iff.mp h
  have hle : (if p pool[i] = true then 1 else 0) ≤ pool.countP p := List.boole_getElem_le_countP hi
  rw [List.countP_set hi]
  omega

/-- A replacement the predicate does not see keeps the count. -/
theorem Pool.countP_set_of_eq (h : pool[i]? = some a) (hp : p b = p a) :
    (pool.set i b).countP p = pool.countP p := by
  have hset := Pool.countP_set (p := p) (b := b) h
  rw [hp] at hset
  omega

/-- What holds of every call and of the new one holds of every call after. -/
theorem Pool.forall_mem_set {P : α → Prop} (h : ∀ x ∈ pool, P x) (hb : P b) : ∀ x ∈ pool.set i b, P x := by
  intro x hx
  obtain hmem | rfl := List.mem_or_eq_of_mem_set hx
  · exact h x hmem
  · exact hb

/-- The replaced call is the new one. -/
theorem Pool.getElem?_set_eq_some {x : α} (h : (pool.set i b)[i]? = some x) : x = b := by
  rw [List.getElem?_set_self'] at h
  obtain ⟨_, -, rfl⟩ := Option.map_eq_some_iff.mp h
  rfl

/-- The new call is in the pool. -/
theorem Pool.mem_set_self (h : pool[i]? = some a) (b : α) : b ∈ pool.set i b := by
  obtain ⟨hi, -⟩ := List.getElem?_eq_some_iff.mp h
  exact List.mem_set hi b

/-- A call other than the replaced one stays. -/
theorem Pool.mem_set_of_ne {x : α} (hx : x ∈ pool) (hne : pool[i]? ≠ some x) (b : α) : x ∈ pool.set i b := by
  obtain ⟨j, hj⟩ := List.mem_iff_getElem?.mp hx
  have hij : i ≠ j := by
    rintro rfl
    exact hne hj
  exact List.mem_iff_getElem?.mpr ⟨j, (List.getElem?_set_ne hij).trans hj⟩

/-- A call of a pool with one more is an old one, or the new one behind them. -/
theorem Pool.getElem?_append_singleton {x : α} (h : (pool ++ [a])[i]? = some x) :
    pool[i]? = some x ∨ (i = pool.length ∧ x = a) := by
  rw [List.getElem?_append] at h
  split at h
  · exact .inl h
  · rename_i hge
    obtain ⟨hlast, heq⟩ := List.getElem?_eq_some_iff.mp h
    rw [List.length_singleton] at hlast
    rw [List.getElem_singleton] at heq
    exact .inr ⟨by omega, heq.symm⟩

/-- A call of the pool after, other than the new one, was there before. -/
theorem Pool.mem_of_mem_set {x : α} (hx : x ∈ pool.set i b) (hne : x ≠ b) : x ∈ pool :=
  (List.mem_or_eq_of_mem_set hx).resolve_right hne

/-- A call meets a property after the step exactly when one did before, when the replaced call and the new one
agree on it. -/
theorem Pool.exists_mem_set_iff {P : α → Prop} (h : pool[i]? = some a) (hiff : P b ↔ P a) :
    (∃ x ∈ pool.set i b, P x) ↔ ∃ x ∈ pool, P x := by
  constructor
  · rintro ⟨x, hx, hP⟩
    obtain hmem | rfl := List.mem_or_eq_of_mem_set hx
    · exact ⟨x, hmem, hP⟩
    · exact ⟨a, List.mem_of_getElem? h, hiff.mp hP⟩
  · rintro ⟨x, hx, hP⟩
    by_cases hsame : pool[i]? = some x
    · obtain rfl := Option.some_inj.mp (h.symm.trans hsame)
      exact ⟨b, Pool.mem_set_self h b, hiff.mpr hP⟩
    · exact ⟨x, Pool.mem_set_of_ne hx hsame b, hP⟩

/-- **At most one**: when no more than one call meets a predicate and the one at `i` does, the others do not,
also after a step replaced it. -/
theorem Pool.others_of_countP_le_one (h : pool.countP p ≤ 1) (ha : pool[i]? = some a) (hp : p a = true) :
    ∀ x ∈ pool.set i b, x = b ∨ (x ∈ pool ∧ p x = false) := by
  obtain ⟨hi, rfl⟩ := List.getElem?_eq_some_iff.mp ha
  have hperm : (pool[i] :: pool.eraseIdx i).countP p = pool.countP p :=
    (List.getElem_cons_eraseIdx_perm hi).countP_eq p
  rw [List.countP_cons_of_pos hp] at hperm
  have hzero : (pool.eraseIdx i).countP p = 0 := by omega
  intro x hx
  obtain ⟨j, hj⟩ := List.mem_iff_getElem?.mp hx
  by_cases hij : i = j
  · subst hij
    exact .inl (Pool.getElem?_set_eq_some hj)
  · rw [List.getElem?_set_ne hij] at hj
    have hmem : x ∈ pool.eraseIdx i := List.mem_eraseIdx_iff_getElem?.mpr ⟨j, fun heq => hij heq.symm, hj⟩
    exact .inr ⟨List.mem_of_getElem? hj, by simpa using List.countP_eq_zero.mp hzero x hmem⟩

/-- **What the calls have between them**: a replacement trades what the old call had for what the new one has. -/
theorem Pool.count_flatMap_set {β : Type*} [DecidableEq β] {f : α → List β} (h : pool[i]? = some a) (x : β) :
    ((pool.set i b).flatMap f).count x + (f a).count x = (pool.flatMap f).count x + (f b).count x := by
  induction pool generalizing i with
  | nil => cases h
  | cons c rest ih =>
    rw [List.flatMap_cons, List.count_append]
    cases i with
    | zero =>
      obtain rfl := Option.some_inj.mp h
      rw [List.set_cons_zero, List.flatMap_cons, List.count_append]
      omega
    | succ i =>
      have hrest := ih h
      rw [List.set_cons_succ, List.flatMap_cons, List.count_append]
      omega

end LocalSqlAgent
