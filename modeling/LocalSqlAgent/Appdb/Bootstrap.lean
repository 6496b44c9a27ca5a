import LocalSqlAgent.Appdb.KeyStore

/-! # Importing the environment's keys at start-up

`bootstrap_from_env`: an empty key table takes the environment's keys; then every environment key is
compared with the rows of its principal id, and a start whose id has rows but not that key's hash is
refused. Between two starts the administrative operations run (`KeyMutation`).

* **`restarts_iff`**: which operations keep the service able to start again.
* **`revokeAll_ambiguous`**: revoking leaves the row, so a refused start is refused again. -/

namespace LocalSqlAgent

/-- The environment's keys as `load_api_keys` returns them: it refuses a repeated hash and a repeated
principal id. -/
structure EnvConfig where
  /-- `{key_sha256: Principal}`, in the order of the entries. -/
  keys : EnvKeys
  /-- No hash twice. -/
  hashes_nodup : (keys.map (·.1)).Nodup
  /-- No principal id twice. -/
  ids_nodup : (keys.map (·.2.id)).Nodup

/-- `AmbiguousKeyIdentityError`, with the id it names. -/
structure AmbiguousKeyIdentity where
  /-- The principal id claimed twice. -/
  principalId : String
  deriving DecidableEq, Repr

/-- What the error says, `repr` quoting the id. -/
def AmbiguousKeyIdentity.message (repr : String → String) (e : AmbiguousKeyIdentity) : String :=
  "Principal id " ++ repr e.principalId ++ " is claimed by both an " ++
  "API_KEYS_JSON / API_KEYS_FILE entry and a different " ++
  "application-database key (different key_sha256 in each) -- " ++
  "refusing to start rather than silently picking one. Either " ++
  "remove this id from there, or revoke the conflicting " ++
  "database key and re-issue it under a different id."

/-- The row an environment key is imported as. -/
def importedRow (key : String × Principal) : KeyRow :=
  ⟨key.1, key.2.id, key.2.name, key.2.deniedColumns, none, none⟩

/-- The table after the import: an empty one takes the environment's keys. -/
def importFromEnv (env : EnvConfig) (db : KeyDb) : KeyDb :=
  if db.keys = [] then
    { db with
      keys := env.keys.map importedRow
      keys_nodup := by
        rw [List.map_map]
        exact env.hashes_nodup }
  else db

/-- `db_hashes_by_id.get(principal_id)`: the hashes of an id's rows, whatever their state. -/
def dbHashes (keys : List KeyRow) (principalId : String) : List String :=
  (keys.filter fun row => row.principalId = principalId).map (·.keySha256)

/-- The first environment key whose id has rows, but none of its hash. -/
def ambiguousKey? (env : EnvConfig) (keys : List KeyRow) : Option (String × Principal) :=
  env.keys.find? fun key => dbHashes keys key.2.id ≠ [] ∧ key.1 ∉ dbHashes keys key.2.id

/-- **`bootstrap_from_env`**: the database it leaves, and how it ends. The import is committed before the
comparison. -/
def bootstrapFromEnv (env : EnvConfig) (db : KeyDb) : KeyDb × Except AmbiguousKeyIdentity Unit :=
  let db' := importFromEnv env db
  match ambiguousKey? env db'.keys with
  | some key => (db', .error ⟨key.2.id⟩)
  | none => (db', .ok ())

/-- An administrative operation; one that raises writes nothing. -/
def mutateStep (noise : EdgeNoise) (db : KeyDb) (m : KeyMutation) : Option KeyDb :=
  some ((m.apply noise db).getD db)

/-- **The service can start again**, and finds every row as it is. -/
def Restarts (env : EnvConfig) (db : KeyDb) : Prop := bootstrapFromEnv env db = (db, .ok ())

/-- The service can start again after an operation. -/
def RestartsAfter (noise : EdgeNoise) (env : EnvConfig) (db : KeyDb) (m : KeyMutation) : Prop :=
  ∀ db', mutateStep noise db m = some db' → Restarts env db'

/-- **No key is issued for an environment principal whose own key has no row**: unless the new row is that
very key, or its hash is taken and nothing is written. -/
def SparesEnvironmentIds (env : EnvConfig) (db : KeyDb) (m : KeyMutation) : Prop :=
  ∀ row, m = .issueKey row → row.keySha256 ∉ db.keys.map (·.keySha256) →
    ∀ key ∈ env.keys, row.principalId = key.2.id →
      key.1 ∈ dbHashes db.keys key.2.id ∨ row.keySha256 = key.1

/-- Every database key of an id is revoked, as the message directs. -/
def revokeAll (noise : EdgeNoise) (now principalId : String) (db : KeyDb) : Option KeyDb :=
  run (mutateStep noise) db ((dbHashes db.keys principalId).map fun key => .revokeKey key now)

variable {noise : EdgeNoise} {env : EnvConfig} {db db' : KeyDb} {m : KeyMutation}

/-! ## Identities -/

/-- Whose hash each row is. The comparison reads nothing else. -/
def identities (keys : List KeyRow) : List (String × String) :=
  keys.map fun row => (row.principalId, row.keySha256)

theorem mem_dbHashes {keys : List KeyRow} {principalId hash : String} :
    hash ∈ dbHashes keys principalId ↔ (principalId, hash) ∈ identities keys := by
  unfold dbHashes identities
  constructor
  · intro h
    obtain ⟨row, hrow, rfl⟩ := List.mem_map.mp h
    obtain ⟨hmem, hid⟩ := List.mem_filter.mp hrow
    rw [decide_eq_true_eq] at hid
    exact List.mem_map.mpr ⟨row, hmem, by rw [hid]⟩
  · intro h
    obtain ⟨row, hmem, heq⟩ := List.mem_map.mp h
    cases heq
    exact List.mem_map.mpr ⟨row, List.mem_filter.mpr ⟨hmem, decide_eq_true rfl⟩, rfl⟩

/-- An id's hashes are read off the identities. -/
theorem dbHashes_eq (keys : List KeyRow) (principalId : String) :
    dbHashes keys principalId
      = ((identities keys).filter fun r => r.1 = principalId).map (·.2) := by
  unfold dbHashes identities
  rw [List.filter_map, List.map_map]
  rfl

/-- **Only the identities decide**: with the same ones, the same key is found ambiguous. -/
theorem ambiguousKey?_congr {keys keys' : List KeyRow} (h : identities keys' = identities keys) :
    ambiguousKey? env keys' = ambiguousKey? env keys := by
  unfold ambiguousKey?
  simp only [dbHashes_eq, h]

/-- Rewriting rows keeps the identities when it keeps each row's. -/
theorem identities_map {keys : List KeyRow} {f : KeyRow → KeyRow}
    (hf : ∀ r, (f r).principalId = r.principalId ∧ (f r).keySha256 = r.keySha256) :
    identities (keys.map f) = identities keys := by
  unfold identities
  rw [List.map_map]
  apply List.map_congr_left
  intro row _
  exact Prod.ext (hf row).1 (hf row).2

theorem onKey_identity {key : String} {f : KeyRow → KeyRow}
    (hf : ∀ r, (f r).principalId = r.principalId ∧ (f r).keySha256 = r.keySha256) (row : KeyRow) :
    (onKey key f row).principalId = row.principalId ∧ (onKey key f row).keySha256 = row.keySha256 := by
  unfold onKey
  split
  · exact hf row
  · exact ⟨rfl, rfl⟩

/-- An operation that adds no row keeps the identities. -/
theorem identities_mutateStep (h : mutateStep noise db m = some db')
    (hnone : ∀ row, m = .issueKey row → row.keySha256 ∈ db.keys.map (·.keySha256)) :
    identities db'.keys = identities db.keys := by
  obtain rfl : (m.apply noise db).getD db = db' := Option.some_inj.mp h
  cases m with
  | issueKey row =>
    -- a hash that is taken: nothing is written
    rw [KeyMutation.apply, dif_pos (hnone row rfl)]
    rfl
  | setDisabled key disabled now =>
    rw [KeyMutation.apply]
    split
    · exact identities_map (onKey_identity fun _ => ⟨rfl, rfl⟩)
    · rfl
  | revokeKey key now =>
    rw [KeyMutation.apply]
    split
    · exact identities_map (onKey_identity fun _ => ⟨rfl, rfl⟩)
    · rfl
  | updateDeniedColumns key columns =>
    rw [KeyMutation.apply]
    split
    · exact identities_map (onKey_identity fun _ => ⟨rfl, rfl⟩)
    · rfl
  | approveRequest principalId columnName =>
    refine identities_map fun r => ?_
    unfold approveOn
    dsimp only
    split <;> exact ⟨rfl, rfl⟩
  | grant principalId capability => rfl
  | revokeRole principalId capability => rfl

/-- An issue under a fresh hash adds its row's identity. -/
theorem identities_issueKey {row : KeyRow} (h : mutateStep noise db (.issueKey row) = some db')
    (hfresh : row.keySha256 ∉ db.keys.map (·.keySha256)) :
    identities db'.keys = (row.principalId, row.keySha256) :: identities db.keys := by
  rw [mutateStep, KeyMutation.apply, dif_neg hfresh] at h
  cases h
  rfl

/-- Revocations add no row. -/
theorem identities_revokeAll {now principalId : String} (h : revokeAll noise now principalId db = some db') :
    identities db'.keys = identities db.keys := by
  unfold revokeAll at h
  generalize dbHashes db.keys principalId = hashes at h
  induction hashes generalizing db with
  | nil =>
    cases h
    rfl
  | cons key hashes ih =>
    obtain ⟨db₁, hstep, hrest⟩ := Option.bind_eq_some_iff.mp h
    exact (ih hrest).trans (identities_mutateStep hstep nofun)

/-! ## When a start is refused -/

/-- An environment key nothing in the table contradicts: its id has no row, or its own. -/
def Unambiguous (keys : List KeyRow) (key : String × Principal) : Prop :=
  (∃ hash, (key.2.id, hash) ∈ identities keys) → (key.2.id, key.1) ∈ identities keys

/-- What a new row does to an environment key. -/
theorem unambiguous_cons_iff {keys keys' : List KeyRow} {key : String × Principal} {principalId hash : String}
    (hcons : identities keys' = (principalId, hash) :: identities keys) (h : Unambiguous keys key) :
    Unambiguous keys' key ↔
      (principalId = key.2.id → (key.2.id, key.1) ∈ identities keys ∨ hash = key.1) := by
  unfold Unambiguous at *
  rw [hcons]
  simp only [List.mem_cons, Prod.mk.injEq]
  constructor
  · intro hnew hid
    obtain ⟨-, hhash⟩ | hold := hnew ⟨hash, .inl ⟨hid.symm, rfl⟩⟩
    · exact .inr hhash.symm
    · exact .inl hold
  · rintro hspared ⟨other, ⟨hid, -⟩ | hold⟩
    · obtain hown | hsame := hspared hid.symm
      · exact .inr hown
      · exact .inl ⟨hid, hsame.symm⟩
    · exact .inr (h ⟨other, hold⟩)

theorem ambiguousKey?_eq_none_iff {keys : List KeyRow} :
    ambiguousKey? env keys = none ↔ ∀ key ∈ env.keys, Unambiguous keys key := by
  unfold ambiguousKey?
  rw [List.find?_eq_none]
  refine forall₂_congr fun key _ => ?_
  have hsome : dbHashes keys key.2.id ≠ [] ↔ ∃ hash, (key.2.id, hash) ∈ identities keys := by
    constructor
    · intro h
      obtain ⟨hash, hmem⟩ := List.exists_mem_of_ne_nil _ h
      exact ⟨hash, mem_dbHashes.mp hmem⟩
    · rintro ⟨hash, hmem⟩
      exact List.ne_nil_of_mem (mem_dbHashes.mpr hmem)
  rw [decide_eq_true_eq, hsome, mem_dbHashes, not_and, not_not]
  rfl

theorem bootstrapFromEnv_fst : (bootstrapFromEnv env db).1 = importFromEnv env db := by
  unfold bootstrapFromEnv
  dsimp only
  split <;> rfl

theorem bootstrapFromEnv_error_iff {e : AmbiguousKeyIdentity} :
    (bootstrapFromEnv env db).2 = .error e ↔
      ∃ key, ambiguousKey? env (importFromEnv env db).keys = some key ∧ e = ⟨key.2.id⟩ := by
  unfold bootstrapFromEnv
  cases hkey : ambiguousKey? env (importFromEnv env db).keys with
  | none => simp [hkey]
  | some key => simp [hkey, eq_comm]

theorem bootstrapFromEnv_ok_iff :
    (bootstrapFromEnv env db).2 = .ok () ↔ ambiguousKey? env (importFromEnv env db).keys = none := by
  unfold bootstrapFromEnv
  cases hkey : ambiguousKey? env (importFromEnv env db).keys with
  | none => simp [hkey]
  | some key => simp [hkey]

theorem importFromEnv_of_ne_nil (h : db.keys ≠ []) : importFromEnv env db = db := if_neg h

/-- An import leaves nothing to refuse: the rows are the environment's keys. -/
theorem unambiguous_imported {key : String × Principal} (h : key ∈ env.keys) :
    Unambiguous (env.keys.map importedRow) key := by
  intro _
  unfold identities
  rw [List.map_map]
  exact List.mem_map.mpr ⟨key, h, rfl⟩

/-- **When the service can start again**: no environment key is contradicted, and the table is not one that
an import would fill. -/
theorem restarts_iff_unambiguous :
    Restarts env db ↔ (∀ key ∈ env.keys, Unambiguous db.keys key) ∧ (db.keys = [] → env.keys = []) := by
  unfold Restarts bootstrapFromEnv
  by_cases hnil : db.keys = []
  · -- the import would change the table, unless there is nothing to import
    have himport : importFromEnv env db
        = ⟨env.keys.map importedRow, db.roles, by rw [List.map_map]; exact env.hashes_nodup⟩ := if_pos hnil
    have hnone : ambiguousKey? env (importFromEnv env db).keys = none := by
      rw [himport]
      exact ambiguousKey?_eq_none_iff.mpr fun key hkey => unambiguous_imported hkey
    dsimp only
    rw [hnone]
    constructor
    · intro h
      have hkeys : env.keys.map importedRow = db.keys := by
        rw [← (Prod.mk.inj h).1, himport]
      rw [hnil, List.map_eq_nil_iff] at hkeys
      exact ⟨by simp [hkeys], fun _ => hkeys⟩
    · rintro ⟨-, hempty⟩
      obtain ⟨keys, roles, hnodup⟩ := db
      obtain rfl : keys = [] := hnil
      simp [himport, hempty rfl]
  · dsimp only
    rw [importFromEnv_of_ne_nil hnil]
    constructor
    · intro h
      refine ⟨ambiguousKey?_eq_none_iff.mp ?_, fun h => absurd h hnil⟩
      cases hfind : ambiguousKey? env db.keys with
      | none => rfl
      | some key =>
        rw [hfind] at h
        cases (Prod.mk.inj h).2
    · rintro ⟨hall, -⟩
      rw [ambiguousKey?_eq_none_iff.mpr hall]

/-- A start that succeeds leaves a state the service can start again from. -/
theorem restarts_of_bootstrap (h : (bootstrapFromEnv env db).2 = .ok ()) :
    Restarts env (bootstrapFromEnv env db).1 := by
  rw [bootstrapFromEnv_fst, restarts_iff_unambiguous]
  refine ⟨ambiguousKey?_eq_none_iff.mp (bootstrapFromEnv_ok_iff.mp h), fun hnil => ?_⟩
  unfold importFromEnv at hnil
  split at hnil
  · exact List.map_eq_nil_iff.mp hnil
  · contradiction

/-! ## Starting again -/

/-- **One operation**: it keeps the service able to start again exactly when it spares the environment's
principal ids. -/
theorem restartsAfter_iff (h : Restarts env db) : RestartsAfter noise env db m ↔ SparesEnvironmentIds env db m := by
  obtain ⟨hall, hempty⟩ := restarts_iff_unambiguous.mp h
  by_cases hissue : ∃ row, m = .issueKey row ∧ row.keySha256 ∉ db.keys.map (·.keySha256)
  · -- a new row, the only thing that adds an identity
    obtain ⟨row, rfl, hfresh⟩ := hissue
    obtain ⟨db', hdb'⟩ : ∃ db', mutateStep noise db (.issueKey row) = some db' := ⟨_, rfl⟩
    have hcons := identities_issueKey hdb' hfresh
    have hne : db'.keys ≠ [] := by
      rintro hnil
      rw [hnil] at hcons
      cases hcons
    unfold SparesEnvironmentIds
    constructor
    · rintro hafter row' heq - key hkey hid
      cases heq
      have hkept := (restarts_iff_unambiguous.mp (hafter db' hdb')).1 key hkey
      rw [mem_dbHashes]
      exact (unambiguous_cons_iff hcons (hall key hkey)).mp hkept hid
    · intro hspares db'' hstep
      obtain rfl : db' = db'' := Option.some_inj.mp (hdb'.symm.trans hstep)
      refine restarts_iff_unambiguous.mpr ⟨fun key hkey => ?_, fun hnil => absurd hnil hne⟩
      refine (unambiguous_cons_iff hcons (hall key hkey)).mpr fun hid => ?_
      rw [← mem_dbHashes]
      exact hspares row rfl hfresh key hkey hid
  · have hnone : ∀ row, m = .issueKey row → row.keySha256 ∈ db.keys.map (·.keySha256) :=
      fun row heq => not_not.mp fun hfresh => hissue ⟨row, heq, hfresh⟩
    refine iff_of_true ?_ fun row heq hfresh => absurd ⟨row, heq, hfresh⟩ hissue
    intro db' hstep
    have hsame := identities_mutateStep hstep hnone
    refine restarts_iff_unambiguous.mpr ⟨fun key hkey => ?_, fun hnil => hempty ?_⟩
    · unfold Unambiguous
      rw [hsame]
      exact hall key hkey
    · rw [hnil] at hsame
      exact List.map_eq_nil_iff.mp hsame.symm

/-- **A refused start is refused again** after every database key of the id is revoked: the rows stay. -/
theorem revokeAll_ambiguous {now : String} {e : AmbiguousKeyIdentity}
    (h : (bootstrapFromEnv env db).2 = .error e) (hrevoke : revokeAll noise now e.principalId db = some db') :
    (bootstrapFromEnv env db').2 = .error e := by
  have hids := identities_revokeAll hrevoke
  obtain ⟨key, hkey, rfl⟩ := bootstrapFromEnv_error_iff.mp h
  have hne : db.keys ≠ [] := by
    -- an import is never refused
    rintro hnil
    rw [importFromEnv, if_pos hnil,
      ambiguousKey?_eq_none_iff.mpr fun key hkey => unambiguous_imported hkey] at hkey
    cases hkey
  have hne' : db'.keys ≠ [] := by
    rintro hnil
    rw [hnil] at hids
    exact hne (List.map_eq_nil_iff.mp hids.symm)
  refine bootstrapFromEnv_error_iff.mpr ⟨key, ?_, rfl⟩
  rw [importFromEnv_of_ne_nil hne', ambiguousKey?_congr hids]
  rwa [importFromEnv_of_ne_nil hne] at hkey

/-- **Restarting.** After a start that succeeds, the operations that leave the service able to start again
in every state on the way, with every row as it is, are those that issue no key for an environment principal
whose own key has no row. And where a start is refused, revoking the database keys of the id it names never
helps. -/
theorem restarts_iff (noise : EdgeNoise) (env : EnvConfig) (db₀ db : KeyDb) (ops : List KeyMutation)
    (h : (bootstrapFromEnv env db₀).2 = .ok ()) :
    Restarts env (bootstrapFromEnv env db₀).1 ∧
    (RunWhere (mutateStep noise) (RestartsAfter noise env) (bootstrapFromEnv env db₀).1 ops db ↔
      RunWhere (mutateStep noise) (SparesEnvironmentIds env) (bootstrapFromEnv env db₀).1 ops db) ∧
    ∀ (refused revoked : KeyDb) (e : AmbiguousKeyIdentity) (now : String),
      (bootstrapFromEnv env refused).2 = .error e → revokeAll noise now e.principalId refused = some revoked →
      (bootstrapFromEnv env revoked).2 = .error e := by
  refine ⟨restarts_of_bootstrap h, ?_, fun _ _ _ _ hrefused hrevoke => revokeAll_ambiguous hrefused hrevoke⟩
  refine RunWhere.congr_of_kept (I := Restarts env) (restarts_of_bootstrap h) ?_ ?_
  · exact fun _ _ s' _ hafter hstep => hafter s' hstep
  · exact fun _ _ hI => restartsAfter_iff hI

/-- The environment names one analyst. -/
def oneAnalyst : EnvConfig := ⟨[("h1", ⟨"analyst-1", "Analyst", [], ∅⟩)], by decide, by decide⟩

/-- A table that had a key before the environment had one. -/
def operatorDb : KeyDb := ⟨[⟨"h0", "operator", "Operator", [], none, none⟩], [], by decide⟩

/-- An operator issues a key for the analyst. -/
def issueForAnalyst : KeyMutation := .issueKey ⟨"h9", "analyst-1", "Analyst", ["NationalID"], none, none⟩

theorem restarts_iff_disable :
    RunWhere (mutateStep fun _ => false) (RestartsAfter (fun _ => false) oneAnalyst) operatorDb
      [.setDisabled "h0" true "t1"]
      ⟨[⟨"h0", "operator", "Operator", [], some "t1", none⟩], [], by decide⟩ :=
  (restarts_iff (fun _ => false) oneAnalyst operatorDb _ [.setDisabled "h0" true "t1"] rfl).2.1.mpr
    (.cons (nofun) rfl (.nil _))

/-- **An issued key stops the next start, and revoking it does not help**: the start that succeeded imported
nothing, since the table had a row. -/
theorem issueForAnalyst_refused :
    bootstrapFromEnv oneAnalyst operatorDb = (operatorDb, .ok ()) ∧
    ∃ issued revoked, mutateStep (fun _ => false) operatorDb issueForAnalyst = some issued ∧
      (bootstrapFromEnv oneAnalyst issued).2 = .error ⟨"analyst-1"⟩ ∧
      revokeAll (fun _ => false) "t1" "analyst-1" issued = some revoked ∧
      (∀ row ∈ revoked.keys, row.principalId = "analyst-1" → row.revokedAt = some "t1") ∧
      (bootstrapFromEnv oneAnalyst revoked).2 = .error ⟨"analyst-1"⟩ :=
  ⟨rfl, _, _, rfl, rfl, rfl, by decide, rfl⟩

end LocalSqlAgent
