import LocalSqlAgent.Appdb.KeyStore

/-! # Role grants and the last-admin check

`appdb.roles` over the key store's tables: who holds a capability, granting it, and the revocation that
refuses to remove its last holder. What a holder is worth is another matter: a capability can be used
only through a key that authenticates, and the check counts role rows and environment entries, not keys.
`Held` is the usable notion, and `noLockout_iff` says which runs of the administrative calls keep it. -/

namespace LocalSqlAgent

/-! ## `appdb.roles` -/

/-- What `revoke` refuses with. -/
inductive RoleError
  /-- `LastAdminError`. -/
  | lastAdmin
  /-- `EnvironmentGrantedRoleError`. -/
  | environmentGranted
  deriving DecidableEq, Repr

/-- `_env_holders`. -/
def envHolders (env : Option EnvKeys) (capability : String) : Finset String :=
  (((envOrEmpty env).filter fun k => capability ∈ k.2.capabilities).map fun k => k.2.id).toFinset

/-- `_db_holders`: nobody when the database does not answer. -/
def dbHolders (readable : Bool) (roles : List (String × String)) (capability : String) : Finset String :=
  if readable then ((roles.filter fun r => r.2 = capability).map Prod.fst).toFinset else ∅

/-- `holders`. -/
def holders (env : Option EnvKeys) (readable : Bool) (roles : List (String × String)) (capability : String) :
    Finset String := envHolders env capability ∪ dbHolders readable roles capability

/-- The checks of `revoke`, before anything is deleted. -/
def revokeChecks (env : Option EnvKeys) (readable : Bool) (roles : List (String × String))
    (principalId capability : String) : Except RoleError Unit :=
  if holders env readable roles capability = {principalId} then .error .lastAdmin
  else if principalId ∈ envHolders env capability then .error .environmentGranted
  else .ok ()

/-! ## Administrative calls -/

/-- The calls that change who can do what: the role and key writes of the admin panel. `readable` is
whether the database answered the holder count of a revocation. -/
inductive AdminOp
  /-- `roles.grant`. -/
  | grant (principalId capability : String)
  /-- `roles.revoke`. -/
  | revoke (principalId capability : String) (readable : Bool)
  /-- `key_store.revoke_key`. -/
  | revokeKey (keySha256 now : String)
  /-- `key_store.set_disabled`. -/
  | setDisabled (keySha256 : String) (disabled : Bool) (now : String)
  deriving DecidableEq, Repr

/-- The write a call makes once its checks pass. -/
def AdminOp.mutation : AdminOp → KeyMutation
  | .grant principalId capability => .grant principalId capability
  | .revoke principalId capability _ => .revokeRole principalId capability
  | .revokeKey keySha256 now => .revokeKey keySha256 now
  | .setDisabled keySha256 disabled now => .setDisabled keySha256 disabled now

section Calls

variable (noise : EdgeNoise) (env : Option EnvKeys)

/-- What a call writes; `none` when it is refused or raises. -/
def AdminOp.perform (db : KeyDb) (op : AdminOp) : Option KeyDb :=
  match op with
  | .revoke principalId capability readable =>
    match revokeChecks env readable db.roles principalId capability with
    | .ok () => op.mutation.apply noise db
    | .error _ => none
  | .grant _ _ | .revokeKey _ _ | .setDisabled _ _ _ => op.mutation.apply noise db

/-- One call after the other; a refused call changes nothing. -/
def adminStep (db : KeyDb) (op : AdminOp) : Option KeyDb := some ((op.perform noise env db).getD db)

/-- A capability is held by somebody with a key that authenticates. -/
def Held (db : KeyDb) (capability : String) : Prop :=
  ∃ k ∈ mergePrincipals noise (joinRows db.keys db.roles) (envOrEmpty env), capability ∈ k.2.capabilities

/-- **No lock-out at a step**: what some usable key could do before a call, some usable key can do after
it. -/
def NoLockout (db : KeyDb) (op : AdminOp) : Prop :=
  ∀ db', adminStep noise env db op = some db' → ∀ capability, Held noise env db capability →
    Held noise env db' capability

/-- A row's key authenticates and carries the capability. -/
def RowHolds (roles : List (String × String)) (capability : String) (row : KeyRow) : Prop :=
  row.active = true ∧
    ((row.principalId, capability) ∈ roles ∨ capability ∈ envCapabilities (envOrEmpty env) row.keySha256)

/-- A key the tables do not know carries the capability. -/
def EnvironmentHolds (db : KeyDb) (capability : String) : Prop :=
  ∃ k ∈ envOrEmpty env, k.1 ∉ db.keys.map (·.keySha256) ∧ capability ∈ k.2.capabilities

/-- What a call leaves a row's key able to do. -/
def AdminOp.SparesRow (capability : String) (row : KeyRow) : AdminOp → Prop
  | .grant _ _ => True
  | .revoke principalId revoked _ =>
    revoked ≠ capability ∨ row.principalId ≠ principalId ∨
      capability ∈ envCapabilities (envOrEmpty env) row.keySha256
  | .revokeKey keySha256 _ => row.keySha256 ≠ keySha256
  | .setDisabled keySha256 disabled _ => disabled = false ∨ row.keySha256 ≠ keySha256

/-- **A call spares a holder** of every capability held: it is refused, or a key that authenticates and
carries the capability is not the one it takes the capability from. -/
def SparesHolder (db : KeyDb) (op : AdminOp) : Prop :=
  op.perform noise env db ≠ none → ∀ capability, Held noise env db capability →
    (∃ row ∈ db.keys, RowHolds env db.roles capability row ∧ op.SparesRow env capability row) ∨
      EnvironmentHolds env db capability

end Calls

variable {noise : EdgeNoise} {env : Option EnvKeys} {db db' : KeyDb} {capability : String} {op : AdminOp}

/-! ## Who holds a capability -/

theorem mem_roleCapabilities {roles : List (String × String)} {principalId : String} :
    capability ∈ roleCapabilities roles principalId ↔ (principalId, capability) ∈ roles := by
  unfold roleCapabilities
  rw [List.mem_toFinset, List.mem_map]
  constructor
  · rintro ⟨⟨p, c⟩, hmem, rfl⟩
    obtain ⟨hroles, hp⟩ := List.mem_filter.mp hmem
    rw [decide_eq_true_eq] at hp
    dsimp only at hp
    exact hp ▸ hroles
  · intro h
    exact ⟨_, List.mem_filter.mpr ⟨h, decide_eq_true rfl⟩, rfl⟩

/-- **A capability is held** by the key of a row, or by a key only the environment knows. -/
theorem held_iff : Held noise env db capability ↔
    (∃ row ∈ db.keys, RowHolds env db.roles capability row) ∨ EnvironmentHolds env db capability := by
  unfold Held mergePrincipals
  constructor
  · rintro ⟨k, hk, hcapability⟩
    obtain hrow | henv := List.mem_append.mp hk
    · obtain ⟨r, hr, rfl⟩ := List.mem_map.mp hrow
      obtain ⟨hjoin, hactive⟩ := List.mem_filter.mp hr
      obtain ⟨row, hdb, rfl⟩ := List.mem_map.mp hjoin
      obtain hrole | hfromEnv := Finset.mem_union.mp hcapability
      · exact .inl ⟨row, hdb, hactive, .inl (mem_roleCapabilities.mp hrole)⟩
      · exact .inl ⟨row, hdb, hactive, .inr hfromEnv⟩
    · obtain ⟨hmem, hno⟩ := List.mem_filter.mp henv
      rw [map_joinRows_key] at hno
      exact .inr ⟨k, hmem, of_decide_eq_true hno, hcapability⟩
  · rintro (⟨row, hdb, hactive, hcarries⟩ | ⟨k, hmem, hno, hcapability⟩)
    · refine ⟨_, List.mem_append_left _ (List.mem_map.mpr ⟨⟨row, roleCapabilities db.roles row.principalId⟩,
        List.mem_filter.mpr ⟨List.mem_map.mpr ⟨row, hdb, rfl⟩, hactive⟩, rfl⟩), ?_⟩
      obtain hrole | hfromEnv := hcarries
      · exact Finset.mem_union_left _ (mem_roleCapabilities.mpr hrole)
      · exact Finset.mem_union_right _ hfromEnv
    · refine ⟨k, List.mem_append_right _ (List.mem_filter.mpr ⟨hmem, ?_⟩), hcapability⟩
      rw [map_joinRows_key]
      exact decide_eq_true hno

/-! ## What each write does to the holders -/

/-- Keys outside the tables do not depend on the rows' contents. -/
theorem environmentHolds_congr (h : db'.keys.map (·.keySha256) = db.keys.map (·.keySha256)) :
    EnvironmentHolds env db' capability ↔ EnvironmentHolds env db capability := by
  unfold EnvironmentHolds
  rw [h]

theorem mapRows_keys (db : KeyDb) (f : KeyRow → KeyRow) (hf : ∀ r, (f r).keySha256 = r.keySha256) :
    (db.mapRows f hf).keys.map (·.keySha256) = db.keys.map (·.keySha256) := by
  show (db.keys.map f).map (·.keySha256) = _
  rw [List.map_map]
  exact List.map_congr_left fun r _ => hf r

/-- The rows that hold a capability once the key `k` is made inactive are those that held it, `k`'s
aside. -/
theorem rowHolds_deactivate {k : String} {f : KeyRow → KeyRow}
    (hf : ∀ r, (onKey k f r).keySha256 = r.keySha256) (hinactive : ∀ r, (f r).active = false) :
    (∃ row ∈ (db.mapRows (onKey k f) hf).keys, RowHolds env db.roles capability row) ↔
      ∃ row ∈ db.keys, RowHolds env db.roles capability row ∧ row.keySha256 ≠ k := by
  constructor
  · rintro ⟨_, hmem, hactive, hcarries⟩
    obtain ⟨row, hrow, rfl⟩ := List.mem_map.mp hmem
    by_cases hk : row.keySha256 = k
    · rw [onKey, if_pos hk, hinactive] at hactive
      cases hactive
    · rw [onKey, if_neg hk] at hactive hcarries
      exact ⟨row, hrow, ⟨hactive, hcarries⟩, hk⟩
  · rintro ⟨row, hrow, hholds, hk⟩
    refine ⟨row, List.mem_map.mpr ⟨row, hrow, ?_⟩, hholds⟩
    rw [onKey, if_neg hk]

/-- Enabling keys takes nothing away. -/
theorem rowHolds_enable {k : String} (hf : ∀ r, (onKey k (fun r => { r with disabledAt := none }) r).keySha256
    = r.keySha256) (h : ∃ row ∈ db.keys, RowHolds env db.roles capability row) :
    ∃ row ∈ (db.mapRows (onKey k fun r => { r with disabledAt := none }) hf).keys,
      RowHolds env db.roles capability row := by
  obtain ⟨row, hrow, hactive, hcarries⟩ := h
  refine ⟨_, List.mem_map_of_mem hrow, ?_⟩
  unfold onKey
  split
  · refine ⟨?_, hcarries⟩
    unfold KeyRow.active at hactive ⊢
    simp only [Bool.and_eq_true] at hactive
    simp [hactive.2]
  · exact ⟨hactive, hcarries⟩

/-- The rows that hold a capability once a role row is deleted. -/
theorem rowHolds_deleteRole {principalId revoked : String} {row : KeyRow} :
    RowHolds env (db.roles.filter (· ≠ (principalId, revoked))) capability row ↔
      RowHolds env db.roles capability row ∧ (revoked ≠ capability ∨ row.principalId ≠ principalId ∨
        capability ∈ envCapabilities (envOrEmpty env) row.keySha256) := by
  unfold RowHolds
  rw [List.mem_filter]
  simp only [ne_eq, decide_eq_true_eq, Prod.mk.injEq, not_and]
  constructor
  · rintro ⟨hactive, ⟨hrole, hne⟩ | henv⟩
    · refine ⟨⟨hactive, .inl hrole⟩, ?_⟩
      by_cases hp : row.principalId = principalId
      · exact .inl fun heq => hne hp heq.symm
      · exact .inr (.inl hp)
    · exact ⟨⟨hactive, .inr henv⟩, .inr (.inr henv)⟩
  · rintro ⟨⟨hactive, hcarries⟩, hspared⟩
    refine ⟨hactive, ?_⟩
    obtain hne | hp | henv := hspared
    · exact hcarries.imp_left fun hrole => ⟨hrole, fun _ heq => hne heq.symm⟩
    · exact hcarries.imp_left fun hrole => ⟨hrole, fun heq => absurd heq hp⟩
    · exact .inr henv

/-- A role row granted is one more. -/
theorem rowHolds_grant {principalId granted : String} {row : KeyRow} (h : RowHolds env db.roles capability row) :
    RowHolds env (if (principalId, granted) ∈ db.roles then db.roles else (principalId, granted) :: db.roles)
      capability row := by
  obtain ⟨hactive, hcarries⟩ := h
  refine ⟨hactive, hcarries.imp_left fun hrole => ?_⟩
  split
  · exact hrole
  · exact List.mem_cons_of_mem _ hrole

/-! ## Which calls lock nobody out -/

/-- **One call that is carried out locks nobody out exactly when it spares a holder.** -/
theorem held_after_iff (hperform : op.perform noise env db = some db') (hheld : Held noise env db capability) :
    Held noise env db' capability ↔
      (∃ row ∈ db.keys, RowHolds env db.roles capability row ∧ op.SparesRow env capability row) ∨
        EnvironmentHolds env db capability := by
  cases op with
  | grant principalId granted =>
    cases hperform
    -- nothing is taken: both sides are that the capability was held
    have hbefore := held_iff.mp hheld
    refine iff_of_true (held_iff.mpr (hbefore.imp_left ?_)) (hbefore.imp_left ?_)
    · exact fun ⟨row, hrow, h⟩ => ⟨row, hrow, rowHolds_grant h⟩
    · exact fun ⟨row, hrow, h⟩ => ⟨row, hrow, h, trivial⟩
  | revoke principalId revoked readable =>
    rw [AdminOp.perform] at hperform
    split at hperform
    · cases hperform
      rw [held_iff]
      refine or_congr (exists_congr fun row => and_congr_right fun _ => ?_) Iff.rfl
      exact rowHolds_deleteRole
    · cases hperform
  | revokeKey k now =>
    rw [AdminOp.perform, AdminOp.mutation, KeyMutation.apply] at hperform
    split at hperform
    · cases hperform
      rw [held_iff, environmentHolds_congr (mapRows_keys _ _ _)]
      exact or_congr_left (rowHolds_deactivate _ fun r => by simp [KeyRow.active])
    · cases hperform
  | setDisabled k disabled now =>
    rw [AdminOp.perform, AdminOp.mutation, KeyMutation.apply] at hperform
    split at hperform
    · cases hperform
      rw [held_iff, environmentHolds_congr (mapRows_keys _ _ _)]
      cases disabled with
      | true =>
        refine or_congr_left ((rowHolds_deactivate _ fun r => by simp [KeyRow.active]).trans ?_)
        simp [AdminOp.SparesRow]
      | false =>
        have hbefore := held_iff.mp hheld
        refine iff_of_true (hbefore.imp_left (rowHolds_enable _)) (hbefore.imp_left ?_)
        exact fun ⟨row, hrow, h⟩ => ⟨row, hrow, h, .inl rfl⟩
    · cases hperform

/-- A step locks nobody out exactly when it spares a holder. -/
theorem noLockout_step_iff : NoLockout noise env db op ↔ SparesHolder noise env db op := by
  unfold NoLockout SparesHolder adminStep
  cases hperform : op.perform noise env db with
  | none =>
    refine iff_of_true ?_ fun hne => absurd rfl hne
    rintro db' heq capability hheld
    cases heq
    exact hheld
  | some db' =>
    constructor
    · exact fun h _ capability hheld => (held_after_iff hperform hheld).mp (h db' rfl capability hheld)
    · rintro h _ heq capability hheld
      cases heq
      exact (held_after_iff hperform hheld).mpr (h (Option.some_ne_none _) capability hheld)

/-- **The runs that lock nobody out** are those whose every call spares a holder of every capability
held. -/
theorem noLockout_iff (noise : EdgeNoise) (env : Option EnvKeys) (db db' : KeyDb) (ops : List AdminOp) :
    RunWhere (adminStep noise env) (NoLockout noise env) db ops db' ↔
      RunWhere (adminStep noise env) (SparesHolder noise env) db ops db' :=
  ⟨fun h => h.mono fun _ _ => noLockout_step_iff.mp, fun h => h.mono fun _ _ => noLockout_step_iff.mpr⟩

/-- In a run that spares a holder at every step, a capability held at the start is held at the end. -/
theorem held_of_runWhere {ops : List AdminOp}
    (h : RunWhere (adminStep noise env) (SparesHolder noise env) db ops db')
    (hheld : Held noise env db capability) : Held noise env db' capability :=
  h.invariant hheld fun _ _ s' hs hspares hstep => noLockout_step_iff.mpr hspares s' hstep capability hs

/-! ## Revoking the last usable key -/

/-- One security administrator, with one key. -/
def soleAdminDb : KeyDb where
  keys := [⟨"h1", "admin-1", "Admin", [], none, none⟩]
  roles := [("admin-1", "security")]
  keys_nodup := by decide

/-- **Key revocation has no last-holder check**: the only usable key of the only security administrator
is revoked, and nobody who holds the capability can authenticate. -/
theorem revokeKey_locks_out :
    Held (fun _ => false) none soleAdminDb "security" ∧
      ¬ NoLockout (fun _ => false) none soleAdminDb (.revokeKey "h1" "t0") := by
  have hheld : Held (fun _ => false) none soleAdminDb "security" := by
    unfold Held
    decide
  refine ⟨hheld, fun h => ?_⟩
  have hafter := h _ rfl "security" hheld
  revert hafter
  unfold Held
  decide

end LocalSqlAgent
