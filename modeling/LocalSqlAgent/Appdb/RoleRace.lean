import LocalSqlAgent.Appdb.Roles

/-! # Concurrent role revocations

`roles.revoke` counts the holders on one connection and deletes on another. Any number of calls may
overlap: a step of the system is one call's count with the checks on it, or one call's delete. The
checks of a call speak of the table as it was counted; `neverEmptied_iff` says which runs keep a
capability held. -/

namespace LocalSqlAgent

/-- A call of `revoke` whose checks passed and whose delete is still to come. -/
structure PendingRevoke where
  /-- `principal_id`. -/
  principalId : String
  /-- `capability`. -/
  capability : String
  /-- The database answered the count. -/
  readable : Bool
  /-- Bookkeeping for the proofs: since the count another call deleted another holder. -/
  outdated : Bool
  deriving DecidableEq, Repr

/-- The role table and the calls in flight. -/
structure RevokeState where
  /-- `admin_principal_roles`. -/
  roles : List (String × String)
  /-- The calls between their count and their delete. -/
  pending : List PendingRevoke
  deriving DecidableEq, Repr

/-- A database statement of one call. -/
inductive RevokeStep
  /-- A call counts the holders and checks them; `readable` says whether the database answered. -/
  | count (principalId capability : String) (readable : Bool)
  /-- The delete of the call at an index. -/
  | delete (i : Nat)
  deriving DecidableEq, Repr

/-- The role table without one row. -/
def deleteRole (roles : List (String × String)) (principalId capability : String) : List (String × String) :=
  roles.filter (· ≠ (principalId, capability))

/-- What a delete does to the standing of another call's count. -/
def PendingRevoke.after (done c : PendingRevoke) : PendingRevoke :=
  { c with outdated := c.outdated || (decide (c.capability = done.capability) &&
      decide (c.principalId ≠ done.principalId)) }

section Interleaved

variable (env : Option EnvKeys)

/-- One statement of one call. -/
def revokeStep (s : RevokeState) : RevokeStep → Option RevokeState
  | .count principalId capability readable =>
    match revokeChecks env readable s.roles principalId capability with
    | .ok () => some { s with pending := ⟨principalId, capability, readable, false⟩ :: s.pending }
    | .error _ => some s
  | .delete i =>
    match s.pending[i]? with
    | none => none
    | some c => some ⟨deleteRole s.roles c.principalId c.capability, (s.pending.eraseIdx i).map c.after⟩

/-- The holders of a capability as they are. -/
def RevokeState.holders (s : RevokeState) (capability : String) : Finset String :=
  LocalSqlAgent.holders env true s.roles capability

/-- **A step empties no capability.** -/
def NeverEmptied (s : RevokeState) (l : RevokeStep) : Prop :=
  ∀ s', revokeStep env s l = some s' → ∀ capability, (s.holders env capability).Nonempty →
    (s'.holders env capability).Nonempty

/-- A delete overtaken by others: its count is out of date, or was never answered, and the principal is
the only holder left. -/
def PendingRevoke.Overtaken (s : RevokeState) (c : PendingRevoke) : Prop :=
  (c.readable = false ∨ c.outdated = true) ∧ s.holders env c.capability = {c.principalId}

/-- No step is an overtaken delete. -/
def NotOvertaken (s : RevokeState) (l : RevokeStep) : Prop :=
  ∀ i c, l = .delete i → s.pending[i]? = some c → ¬ c.Overtaken env s

/-- **What a call in flight knows**: the principal is no environment holder, and while its count stands,
there is no holder at all or one besides the principal. -/
structure Counted (s : RevokeState) : Prop where
  /-- The environment check passed. -/
  notEnvironment : ∀ c ∈ s.pending, c.principalId ∉ envHolders env c.capability
  /-- The last-holder check passed. -/
  other : ∀ c ∈ s.pending, c.readable = true → c.outdated = false →
    s.holders env c.capability = ∅ ∨ ∃ q ∈ s.holders env c.capability, q ≠ c.principalId

end Interleaved

variable {env : Option EnvKeys} {s s' : RevokeState} {principalId capability : String}

/-! ## Holders -/

theorem mem_dbHolders {roles : List (String × String)} {p : String} :
    p ∈ dbHolders true roles capability ↔ (p, capability) ∈ roles := by
  unfold dbHolders
  rw [if_pos rfl, List.mem_toFinset, List.mem_map]
  constructor
  · rintro ⟨⟨q, c⟩, hmem, rfl⟩
    obtain ⟨hroles, hc⟩ := List.mem_filter.mp hmem
    rw [decide_eq_true_eq] at hc
    dsimp only at hc
    exact hc ▸ hroles
  · exact fun h => ⟨_, List.mem_filter.mpr ⟨h, decide_eq_true rfl⟩, rfl⟩

theorem mem_holders {p : String} :
    p ∈ s.holders env capability ↔ p ∈ envHolders env capability ∨ (p, capability) ∈ s.roles := by
  rw [RevokeState.holders, holders, Finset.mem_union, mem_dbHolders]

/-- Whom a delete leaves holding: everybody else, and the environment's holders. -/
theorem mem_holders_deleteRole {pending : List PendingRevoke} {p q deleted : String} :
    q ∈ RevokeState.holders env ⟨deleteRole s.roles p deleted, pending⟩ capability ↔
      q ∈ s.holders env capability ∧ (q ∈ envHolders env capability ∨ q ≠ p ∨ capability ≠ deleted) := by
  rw [mem_holders, mem_holders, deleteRole, List.mem_filter]
  simp only [ne_eq, decide_eq_true_eq, Prod.mk.injEq]
  constructor
  · rintro (henv | ⟨hrole, hne⟩)
    · exact ⟨.inl henv, .inl henv⟩
    · refine ⟨.inr hrole, .inr ?_⟩
      by_cases hq : q = p
      · exact .inr fun hc => hne ⟨hq, hc⟩
      · exact .inl hq
  · rintro ⟨henv | hrole, hspared⟩
    · exact .inl henv
    · obtain henv | hspared := hspared
      · exact .inl henv
      · exact .inr ⟨hrole, fun ⟨hq, hc⟩ => hspared.elim (fun h => h hq) fun h => h hc⟩

/-- Holders that are not one principal alone have another one among them. -/
theorem exists_other_holder {names : Finset String} (hsome : names.Nonempty) (hne : names ≠ {principalId}) :
    ∃ q ∈ names, q ≠ principalId := by
  by_contra hall
  push Not at hall
  exact hne (Finset.eq_singleton_iff_nonempty_unique_mem.mpr ⟨hsome, hall⟩)

/-- Passed checks on an answered count: the principal is not an environment holder, and the holders are
not the principal alone. -/
theorem of_revokeChecks {readable : Bool} {roles : List (String × String)}
    (h : revokeChecks env readable roles principalId capability = .ok ()) :
    holders env readable roles capability ≠ {principalId} ∧ principalId ∉ envHolders env capability := by
  unfold revokeChecks at h
  split at h
  · cases h
  · rename_i hne
    split at h
    · cases h
    · rename_i henv
      exact ⟨hne, henv⟩

/-! ## The invariant -/

/-- A new call knows what it just counted. -/
theorem Counted.count (h : Counted env s) {readable : Bool}
    (hchecks : revokeChecks env readable s.roles principalId capability = .ok ()) :
    Counted env { s with pending := ⟨principalId, capability, readable, false⟩ :: s.pending } := by
  obtain ⟨hne, henv⟩ := of_revokeChecks hchecks
  refine ⟨List.forall_mem_cons.mpr ⟨henv, h.notEnvironment⟩, List.forall_mem_cons.mpr ⟨?_, h.other⟩⟩
  intro hreadable _
  dsimp only at hreadable
  subst hreadable
  by_cases hempty : s.holders env capability = ∅
  · exact .inl hempty
  · obtain ⟨q, hq, hqp⟩ := exists_other_holder
      (Finset.nonempty_iff_ne_empty.mpr hempty) hne
    exact .inr ⟨q, hq, hqp⟩

/-- A delete leaves the calls whose count still stands with what they knew: it took a row of another
capability, or the very row they are to delete. -/
theorem Counted.delete (h : Counted env s) (i : Nat) (done : PendingRevoke) :
    Counted env ⟨deleteRole s.roles done.principalId done.capability,
      (s.pending.eraseIdx i).map done.after⟩ := by
  constructor
  · intro c hc
    obtain ⟨c₀, hc₀, rfl⟩ := List.mem_map.mp hc
    exact h.notEnvironment c₀ (List.mem_of_mem_eraseIdx hc₀)
  · intro c hc hreadable hstands
    obtain ⟨c₀, hc₀, rfl⟩ := List.mem_map.mp hc
    simp only [PendingRevoke.after, Bool.or_eq_false_iff, Bool.and_eq_false_iff, decide_eq_false_iff_not,
      not_not] at hstands
    obtain ⟨hstood, hother⟩ := hstands
    have hkept : ∀ q ∈ s.holders env c₀.capability, q ≠ c₀.principalId →
        q ∈ RevokeState.holders env ⟨deleteRole s.roles done.principalId done.capability,
          (s.pending.eraseIdx i).map done.after⟩ c₀.capability := by
      intro q hq hqp
      refine mem_holders_deleteRole.mpr ⟨hq, .inr ?_⟩
      obtain hcap | hsame := hother
      · exact .inr hcap
      · exact .inl (hsame ▸ hqp)
    obtain hempty | ⟨q, hq, hqp⟩ := h.other c₀ (List.mem_of_mem_eraseIdx hc₀) hreadable hstood
    · refine .inl (Finset.eq_empty_of_forall_notMem fun q hq => ?_)
      have hbefore := (mem_holders_deleteRole.mp hq).1
      dsimp only [PendingRevoke.after] at hbefore
      rw [hempty] at hbefore
      exact Finset.notMem_empty q hbefore
    · exact .inr ⟨q, hkept q hq hqp, hqp⟩

/-- **What a step can do**: a count that passes its checks puts its call in flight and one that does not
changes nothing; a delete ends a call in flight. -/
theorem revokeStep_cases {l : RevokeStep} (hstep : revokeStep env s l = some s') :
    (∃ principalId capability readable, l = .count principalId capability readable ∧
      (s' = s ∨ revokeChecks env readable s.roles principalId capability = .ok () ∧
        s' = { s with pending := ⟨principalId, capability, readable, false⟩ :: s.pending })) ∨
    ∃ i c, l = .delete i ∧ s.pending[i]? = some c ∧
      s' = ⟨deleteRole s.roles c.principalId c.capability, (s.pending.eraseIdx i).map c.after⟩ := by
  cases l with
  | count principalId capability readable =>
    refine .inl ⟨principalId, capability, readable, rfl, ?_⟩
    rw [revokeStep] at hstep
    split at hstep
    · rename_i hchecks
      cases hstep
      exact .inr ⟨hchecks, rfl⟩
    · cases hstep
      exact .inl rfl
  | delete i =>
    rw [revokeStep] at hstep
    split at hstep
    · cases hstep
    · rename_i c hc
      cases hstep
      exact .inr ⟨i, c, rfl, hc, rfl⟩

/-- Every step keeps what the calls in flight know. -/
theorem Counted.step (h : Counted env s) {l : RevokeStep} (hstep : revokeStep env s l = some s') :
    Counted env s' := by
  obtain ⟨p, capability, readable, -, rfl | ⟨hchecks, rfl⟩⟩ | ⟨i, c, -, -, rfl⟩ := revokeStep_cases hstep
  · exact h
  · exact h.count hchecks
  · exact h.delete i c

/-! ## Which runs keep a capability held -/

/-- Counting changes no holder. -/
theorem neverEmptied_count (readable : Bool) : NeverEmptied env s (.count principalId capability readable) := by
  intro s' hstep c hheld
  obtain ⟨_, _, _, -, rfl | ⟨-, rfl⟩⟩ | ⟨i, _, hdelete, -⟩ := revokeStep_cases hstep
  · exact hheld
  · exact hheld
  · cases hdelete

/-- A delete empties a capability exactly when it is overtaken. -/
theorem neverEmptied_delete_iff (h : Counted env s) {i : Nat} {c : PendingRevoke}
    (hc : s.pending[i]? = some c) : NeverEmptied env s (.delete i) ↔ ¬ c.Overtaken env s := by
  have hmem : c ∈ s.pending := List.mem_of_getElem? hc
  have hstep : revokeStep env s (.delete i)
      = some ⟨deleteRole s.roles c.principalId c.capability, (s.pending.eraseIdx i).map c.after⟩ := by
    rw [revokeStep, hc]
  constructor
  · rintro hkept ⟨-, hlast⟩
    obtain ⟨q, hq⟩ := hkept _ hstep c.capability (by rw [hlast]; exact Finset.singleton_nonempty _)
    obtain ⟨hbefore, henv | hne | hcap⟩ := mem_holders_deleteRole.mp hq
    · rw [hlast, Finset.mem_singleton] at hbefore
      exact h.notEnvironment c hmem (hbefore ▸ henv)
    · rw [hlast, Finset.mem_singleton] at hbefore
      exact hne hbefore
    · exact hcap rfl
  · rintro hfresh s' heq capability ⟨q, hq⟩
    rw [hstep] at heq
    cases heq
    by_cases hcap : capability = c.capability
    · subst hcap
      -- somebody else holds the capability: the count still stands, or shows it as it is now
      have hother : ∃ q ∈ s.holders env c.capability, q ≠ c.principalId := by
        by_cases hstands : c.readable = true ∧ c.outdated = false
        · obtain hempty | hother := h.other c hmem hstands.1 hstands.2
          · rw [hempty] at hq
            exact absurd hq (Finset.notMem_empty q)
          · exact hother
        · refine exists_other_holder ⟨q, hq⟩ fun hlast => hfresh ⟨?_, hlast⟩
          by_cases hreadable : c.readable = true
          · exact .inr (Bool.not_eq_false _ ▸ fun hout => hstands ⟨hreadable, hout⟩)
          · exact .inl (Bool.not_eq_true _ ▸ hreadable)
      obtain ⟨q', hq', hne⟩ := hother
      exact ⟨q', mem_holders_deleteRole.mpr ⟨hq', .inr (.inl hne)⟩⟩
    · exact ⟨q, mem_holders_deleteRole.mpr ⟨hq, .inr (.inr hcap)⟩⟩

theorem neverEmptied_step_iff (h : Counted env s) (l : RevokeStep) :
    NeverEmptied env s l ↔ NotOvertaken env s l := by
  cases l with
  | count principalId capability readable =>
    exact iff_of_true (neverEmptied_count readable) fun i c heq => nomatch heq
  | delete i =>
    cases hc : s.pending[i]? with
    | none =>
      refine iff_of_true ?_ fun j c heq hj => ?_
      · intro s' hstep
        obtain ⟨_, _, _, hcount, -⟩ | ⟨_, c, hdelete, hpending, -⟩ := revokeStep_cases hstep
        · cases hcount
        · cases hdelete
          rw [hc] at hpending
          cases hpending
      · cases heq
        rw [hc] at hj
        cases hj
    | some c =>
      rw [neverEmptied_delete_iff h hc]
      constructor
      · rintro hfresh j c' heq hj
        cases heq
        rw [hc] at hj
        cases hj
        exact hfresh
      · exact fun hfresh => hfresh i c rfl hc

/-- **The runs that never empty a capability** are those without an overtaken delete, from any table with
no call in flight. -/
theorem neverEmptied_iff (env : Option EnvKeys) (roles : List (String × String)) (s : RevokeState)
    (steps : List RevokeStep) :
    RunWhere (revokeStep env) (NeverEmptied env) ⟨roles, []⟩ steps s ↔
      RunWhere (revokeStep env) (NotOvertaken env) ⟨roles, []⟩ steps s := by
  refine RunWhere.congr_of_invariant (I := Counted env) ⟨nofun, nofun⟩ ?_ ?_
  · exact fun _ _ _ hI hstep => hI.step hstep
  · exact fun _ l hI => neverEmptied_step_iff hI l

/-- Two security administrators revoke each other: both count before either deletes. -/
def mutualRevoke : List RevokeStep :=
  [.count "admin-1" "security" true, .count "admin-2" "security" true, .delete 0, .delete 0]

/-- **Two revocations empty a capability together**: each sees the other as the remaining holder. -/
theorem mutualRevoke_empties :
    (run (revokeStep none) ⟨[("admin-1", "security"), ("admin-2", "security")], []⟩ mutualRevoke
      = some ⟨[], []⟩) ∧
    ∀ s, ¬ RunWhere (revokeStep none) (NeverEmptied none)
      ⟨[("admin-1", "security"), ("admin-2", "security")], []⟩ mutualRevoke s := by
  have hrun : run (revokeStep none) ⟨[("admin-1", "security"), ("admin-2", "security")], []⟩ mutualRevoke
      = some ⟨[], []⟩ := by decide
  refine ⟨hrun, ?_⟩
  refine not_runWhere_of_run (I := fun s => (s.holders none "security").Nonempty) hrun ?_ ?_ ?_
  · decide
  · exact fun _ _ s' hs hkept hstep => hkept s' hstep "security" hs
  · decide

end LocalSqlAgent
